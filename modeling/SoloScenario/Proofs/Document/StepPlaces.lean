import SoloScenario.Proofs.Document.Inheritance
import SoloScenario.Proofs.Document.LineBreaks
import SoloScenario.Proofs.Document.Reprint
import SoloScenario.Proofs.Grammar.Starts

/-!
# The lines that the steps of a feature come from

Reading a document goes through its text once, so its steps stand on lines
that follow one another (`Found`), from those of the document's background
to those of the last rule.  The feature has the same steps, some of them
more than once, since each scenario of a rule is given the steps of its
background.

* `found_body` — the steps of a document in the order in which they are
  written;
* `Feature.read_lines` — the lines of a feature's steps, and what a step
  keeps of its line;
* `Feature.read_wide_space` — a step that is not its line.
-/

namespace SoloScenario

open Grammar Reader Text

/-! ## Steps in the order in which they are written -/

/-- The steps of a rule as they are written. -/
def Document.Rule.writtenSteps (r : Document.Rule) : List Step :=
  r.steps ++ r.scenarios.flatMap Document.Scenario.steps

/-- The steps of a document as they are written. -/
def Document.writtenSteps (doc : Document) : List Step :=
  sharedSteps doc.background
    ++ doc.scenarios.flatMap Document.Scenario.steps
    ++ doc.rules.flatMap Document.Rule.writtenSteps

/-- The steps of a child. -/
def Child.steps : Child → List Step
  | .background b => b.steps
  | .scenario s => s.steps

/-- All steps of a feature. -/
def Feature.steps (f : Feature) : List Step :=
  f.children.flatMap Child.steps

/-- Rules hand steps down, but make none. -/
theorem Document.mem_writtenSteps {doc : Document} {st : Step}
    (h : st ∈ doc.toFeature.steps) : st ∈ doc.writtenSteps := by
  have hof : ∀ {scs : List Document.Scenario} {sc : Document.Scenario},
      sc ∈ scs → st ∈ sc.steps →
      st ∈ scs.flatMap Document.Scenario.steps :=
    fun hsc hst => List.mem_flatMap.mpr ⟨_, hsc, hst⟩
  rw [writtenSteps, List.append_assoc]
  obtain ⟨child, hchild, hst⟩ := List.mem_flatMap.mp h
  rcases List.mem_append.mp hchild with hchild | hchild
  · obtain ⟨b, hb, rfl⟩ := List.mem_map.mp hchild
    refine List.mem_append_left _ ?_
    rw [← sharedSteps_toList]
    exact List.mem_flatMap.mpr ⟨b, hb, hst⟩
  · refine List.mem_append_right _ ?_
    obtain ⟨s, hs, rfl⟩ := List.mem_map.mp hchild
    rcases List.mem_append.mp hs with hs | hs
    · obtain ⟨own, hown, rfl⟩ := List.mem_map.mp hs
      exact List.mem_append_left _ (hof hown hst)
    · refine List.mem_append_right _ ?_
      obtain ⟨rule, hrule, hs⟩ := List.mem_flatMap.mp hs
      obtain ⟨own, hown, rfl⟩ := List.mem_map.mp hs
      refine List.mem_flatMap.mpr ⟨rule, hrule, ?_⟩
      rcases List.mem_append.mp hst with hst | hst
      · exact List.mem_append_left _ hst
      · exact List.mem_append_right _ (hof hown hst)

/-! ## Steps found one after the other -/

/-- Going through the text from `s` to `r`, the steps are found on lines of
the source that follow one another. -/
inductive Found (d : Dialect) (source : List Char) :
    List Char → List Step → List Char → Prop
  | nothing {s r : List Char} (h : r <:+ s) : Found d source s [] r
  | step {s t r : List Char} {l : StepLine} {st : Step} {sts : List Step}
      (hl : StandsIn d source l) (hst : Shows l st) (hs : l.rest <:+ s)
      (ht : t <:+ l.behind) (h : Found d source t sts r) :
      Found d source s (st :: sts) r

namespace Found

variable {d : Dialect} {source s t r : List Char} {sts sts' : List Step}

/-- What is found further on is found from an earlier place on. -/
theorem wider (h : Found d source t sts r) (hs : t <:+ s) :
    Found d source s sts r := by
  cases h with
  | nothing h => exact .nothing (h.trans hs)
  | step hl hst hrest ht h => exact .step hl hst (hrest.trans hs) ht h

/-- The text only gets shorter. -/
theorem suffix (h : Found d source s sts r) : r <:+ s := by
  induction h with
  | nothing h => exact h
  | step hl hst hs ht _ ih =>
      exact ih.trans (ht.trans ((List.suffix_append _ _).trans hs))

/-- Steps that are found one after the other are found together. -/
theorem append (h : Found d source s sts t) (h' : Found d source t sts' r) :
    Found d source s (sts ++ sts') r := by
  induction h with
  | nothing h => exact h'.wider h
  | step hl hst hs ht _ ih => exact .step hl hst hs ht (ih h')

/-- The lines, in the order of the steps. -/
theorem lines (h : Found d source s sts r) :
    ∃ ls : List StepLine, ls.Pairwise StepLine.Follows
      ∧ List.Forall₂ (fun l st => StandsIn d source l ∧ Shows l st) ls sts
      ∧ ∀ l ∈ ls, l.rest <:+ s := by
  induction h with
  | nothing => exact ⟨[], .nil, .nil, by simp⟩
  | @step s t r l st sts hl hst hs ht _ ih =>
      obtain ⟨ls, hfollows, hshows, hbelow⟩ := ih
      refine ⟨l :: ls, .cons (fun k hk => (hbelow k hk).trans ht) hfollows,
        .cons ⟨hl, hst⟩ hshows, List.forall_mem_cons.mpr ⟨hs, ?_⟩⟩
      intro k hk
      have hbehind : l.behind <:+ l.rest := List.suffix_append _ _
      exact (hbelow k hk).trans (ht.trans (hbehind.trans hs))

end Found

section

variable {d : Dialect} (hd : d.Clear) {source s r : List Char}
  (hsource : source.getLast? = some '\n')
include hd hsource

/-- The steps of a section are found where it is read. -/
theorem found_steps {sts : List Step} (hs : Ready source s)
    (h : Yields (steps d) s sts r) : Found d source s sts r := by
  rcases h.chain_cases with ⟨rfl, rfl⟩ | ⟨st, later, t, rfl, hst, hlater⟩
  · exact .nothing List.suffix_rfl
  · obtain ⟨⟨l, hl, hshows, hrest, ht⟩, hready⟩ := hs.step hd hsource hst
    refine .step hl hshows (hrest ▸ List.suffix_rfl) ht ?_
    refine hlater.many_induction
      (R := fun s sts r => Ready source s → Found d source s sts r)
      (fun s _ => .nothing List.suffix_rfl) (fun hnext hlater hs => ?_) hready
    obtain ⟨_, r₁, hskip, hst⟩ := hnext.bind
    rw [hskip.skip, hs.skipSpaces] at hst
    obtain ⟨⟨l, hl, hshows, hrest, ht⟩, hready⟩ := hs.step hd hsource hst
    exact .step hl hshows (hrest ▸ List.suffix_rfl) ht (hlater hready)

/-- Behind a heading and its description. -/
theorem found_section {words stops : List String} {x : String × String}
    {u : Unit} {sts : List Step} {r₁ r₂ : List Char} (hs : s <:+ source)
    (hheading : Yields (heading words) s x r₁)
    (hdescription : Yields (description stops) r₁ u r₂)
    (hsteps : Yields (steps d) r₂ sts r) : Found d source s sts r := by
  have hr₂ := (ready_of_heading hs hheading).description hdescription
  refine (found_steps hd hsource hr₂ hsteps).wider ?_
  exact (trims_description _ hdescription).trans (trims_heading _ hheading)

/-- The steps of a background are found where it is read. -/
theorem found_background {b : Background} (hs : s <:+ source)
    (h : Yields (background d) s b r) : Found d source s b.steps r := by
  obtain ⟨_, r₁, hcomments, h⟩ := h.bind
  obtain ⟨_, r₂, hskip, h⟩ := h.bind
  obtain ⟨⟨found, name⟩, r₃, hheading, h⟩ := h.bind
  obtain ⟨_, r₄, hdescription, h⟩ := h.bind
  obtain ⟨body, r₅, hsteps, h⟩ := h.bind
  obtain ⟨rfl, rfl⟩ := h.give
  have hr₂ := (trims_skip skipSpaces_suffix hskip).trans
    (trims_skip skipComments_suffix hcomments)
  exact (found_section hd hsource (hr₂.trans hs) hheading hdescription
    hsteps).wider hr₂

/-- So they are if it may be missing. -/
theorem found_background? {o : Option Background} (hs : s <:+ source)
    (h : Yields (Reader.optional (background d)) s o r) :
    Found d source s (Document.sharedSteps o) r := by
  rcases h.optional with ⟨b, rfl, hb⟩ | ⟨rfl, rfl⟩
  · exact found_background hd hsource hs hb
  · exact .nothing List.suffix_rfl

/-- The steps of a scenario are found where it is read. -/
theorem found_scenario {sc : Document.Scenario} (hs : s <:+ source)
    (h : Yields (scenario d) s sc r) : Found d source s sc.steps r := by
  have hwith : ∀ {words : List String},
      Yields (scenarioWith d words) s sc r → Found d source s sc.steps r := by
    intro words h
    obtain ⟨_, r₁, hcomments, h⟩ := h.bind
    obtain ⟨_, r₂, hskip, h⟩ := h.bind
    obtain ⟨own, r₃, htags, h⟩ := h.bind
    obtain ⟨_, r₄, hskip', h⟩ := h.bind
    obtain ⟨⟨found, name⟩, r₅, hheading, h⟩ := h.bind
    obtain ⟨_, r₆, hdescription, h⟩ := h.bind
    obtain ⟨body, r₇, hsteps, h⟩ := h.bind
    obtain ⟨sections, r₈, hsections, h⟩ := h.bind
    obtain ⟨rfl, rfl⟩ := h.give
    have hr₄ := (trims_skip skipSpaces_suffix hskip').trans
      ((trims_tags htags).trans ((trims_skip skipSpaces_suffix hskip).trans
        (trims_skip skipComments_suffix hcomments)))
    have hfound := (found_section hd hsource (hr₄.trans hs) hheading
      hdescription hsteps).wider hr₄
    have hrest := hfound.append
      (.nothing ((trims_examples d).many hsections))
    rwa [List.append_nil] at hrest
  rcases h.orElse with h | h
  · exact hwith h
  · exact hwith h

omit hd hsource in
/-- What is found part by part is found along a chain. -/
theorem found_chain {α : Type} {p : Reader α} {g : α → List Step}
    {as : List α}
    (hp : ∀ {s a r}, s <:+ source → Yields p s a r →
      Found d source s (g a) r) (hs : s <:+ source)
    (h : Yields (chain skipSpaces p p) s as r) :
    Found d source s (as.flatMap g) r := by
  rcases h.chain_cases with ⟨rfl, rfl⟩ | ⟨a, later, t, rfl, ha, hlater⟩
  · exact .nothing List.suffix_rfl
  · have hfirst := hp hs ha
    refine hfirst.append ?_
    refine hlater.many_induction
      (R := fun s as r => s <:+ source → Found d source s (as.flatMap g) r)
      (fun s _ => .nothing List.suffix_rfl) (fun hnext hlater hs => ?_)
      (hfirst.suffix.trans hs)
    obtain ⟨_, r₁, hskip, ha⟩ := hnext.bind
    have hr₁ := trims_skip skipSpaces_suffix hskip
    have hhere := hp (hr₁.trans hs) ha
    have hr₂ := (hhere.suffix.trans hr₁).trans hs
    exact (hhere.wider hr₁).append (hlater hr₂)

/-- The steps of several scenarios are found, one scenario after the other. -/
theorem found_scenarios {scs : List Document.Scenario} (hs : s <:+ source)
    (h : Yields (scenarios d) s scs r) :
    Found d source s (scs.flatMap Document.Scenario.steps) r := by
  obtain ⟨_, r₁, hskip, h⟩ := h.bind
  have hr₁ := trims_skip skipSpaces_suffix hskip
  exact (found_chain (found_scenario hd hsource) (hr₁.trans hs) h).wider hr₁

/-- The background and the scenarios of a rule or of a document. -/
theorem found_group {shared : Option Background} {u : Unit}
    {scs : List Document.Scenario} {r₁ r₂ : List Char} (hs : s <:+ source)
    (hshared : Yields (Reader.optional (background d)) s shared r₁)
    (hnewlines : Yields (skip skipNewlines) r₁ u r₂)
    (hbody : Yields (scenarios d) r₂ scs r) :
    Found d source s (Document.sharedSteps shared
      ++ scs.flatMap Document.Scenario.steps) r := by
  have hbackground := found_background? hd hsource hs hshared
  have hr₂ := trims_skip skipNewlines_suffix hnewlines
  have hscenarios := found_scenarios hd hsource
    (hr₂.trans (hbackground.suffix.trans hs)) hbody
  exact hbackground.append (hscenarios.wider hr₂)

/-- The steps of a rule are found, those of its background first. -/
theorem found_rule {group : Document.Rule} (hs : s <:+ source)
    (h : Yields (rule d) s group r) :
    Found d source s group.writtenSteps r := by
  obtain ⟨_, r₁, hskip, h⟩ := h.bind
  obtain ⟨own, r₂, htags, h⟩ := h.bind
  obtain ⟨_, r₃, hskip', h⟩ := h.bind
  obtain ⟨x, r₄, hheading, h⟩ := h.bind
  obtain ⟨_, r₅, hdescription, h⟩ := h.bind
  obtain ⟨shared, r₆, hshared, h⟩ := h.bind
  obtain ⟨_, r₇, hnewlines, h⟩ := h.bind
  obtain ⟨body, r₈, hbody, h⟩ := h.bind
  obtain ⟨_, r₉, hend, h⟩ := h.bind
  obtain ⟨rfl, rfl⟩ := h.give
  have hr₅ := (trims_description _ hdescription).trans
    ((trims_heading _ hheading).trans
      ((trims_skip skipSpaces_suffix hskip').trans
        ((trims_tags htags).trans (trims_skip skipSpaces_suffix hskip))))
  have hgroup := found_group hd hsource (hr₅.trans hs) hshared hnewlines
    hbody
  have hall := (hgroup.wider hr₅).append
    (.nothing (trims_skip skipNewlines_suffix hend))
  rwa [List.append_nil] at hall

/-- **The steps of a document stand on lines that follow one another**, in
the order in which they are written. -/
theorem found_body {doc : Document} (hs : s <:+ source)
    (h : Yields (body d) s doc r) : Found d source s doc.writtenSteps r := by
  obtain ⟨_, r₁, hfront, h⟩ := h.bind
  obtain ⟨own, r₂, htags, h⟩ := h.bind
  obtain ⟨⟨found, name⟩, r₃, hheading, h⟩ := h.bind
  obtain ⟨_, r₄, hdescription, h⟩ := h.bind
  obtain ⟨shared, r₅, hshared, h⟩ := h.bind
  obtain ⟨_, r₆, hnewlines, h⟩ := h.bind
  obtain ⟨top, r₇, htop, h⟩ := h.bind
  obtain ⟨_, r₈, hnewlines', h⟩ := h.bind
  obtain ⟨groups, r₉, hgroups, h⟩ := h.bind
  obtain ⟨_, r₁₀, hend, h⟩ := h.bind
  obtain ⟨rfl, rfl⟩ := h.give
  obtain ⟨_, r₁₁, hskip, hrules⟩ := hgroups.bind
  have hr₄ := (trims_description _ hdescription).trans
    ((trims_heading _ hheading).trans ((trims_tags htags).trans
      (trims_skip skipNewlines_suffix hfront)))
  have hgroup := (found_group hd hsource (hr₄.trans hs) hshared hnewlines
    htop).wider hr₄
  have hr₁₁ := (trims_skip skipSpaces_suffix hskip).trans
    (trims_skip skipNewlines_suffix hnewlines')
  have hrules := found_chain (found_rule hd hsource)
    (hr₁₁.trans (hgroup.suffix.trans hs)) hrules
  have hall := (hgroup.append (hrules.wider hr₁₁)).append
    (.nothing (trims_skip skipNewlines_suffix hend))
  rwa [List.append_nil] at hall

end

/-! ## Documents -/

/-- A dialect that a text names is one of the table. -/
theorem mem_all_of_languageLine {d : Dialect} {s r : List Char}
    (h : Yields languageLine s d r) : d ∈ Dialect.all := by
  obtain ⟨_, r₁, -, h⟩ := h.bind
  obtain ⟨_, r₂, -, h⟩ := h.bind
  obtain ⟨_, r₃, -, h⟩ := h.bind
  obtain ⟨_, r₄, -, h⟩ := h.bind
  obtain ⟨_, r₅, -, h⟩ := h.bind
  obtain ⟨_, r₆, -, h⟩ := h.bind
  obtain ⟨_, r₇, -, h⟩ := h.bind
  obtain ⟨code, r₈, -, h⟩ := h.bind
  obtain ⟨_, r₉, -, h⟩ := h.bind
  obtain ⟨_, r₁₀, -, h⟩ := h.bind
  cases hfound : Dialect.find? (String.ofList code) with
  | none =>
      rw [hfound] at h
      simp [Yields, doom] at h
  | some d' =>
      rw [hfound] at h
      obtain ⟨rfl, -⟩ := h.give
      exact List.mem_of_find?_eq_some hfound

namespace Document

/-- With its final break the text ends in a line feed. -/
theorem getLast?_withFinalBreak (s : List Char) :
    (withFinalBreak s).getLast? = some '\n' := by
  rw [withFinalBreak]
  split
  · next h => simpa [endsInBreak] using h
  · simp

/-- The dialect that a text is read in. -/
def dialectOf (d : Dialect) (text : String) : Dialect :=
  (named? text).getD d

/-- **The steps of a document are found in its text,** as its dialect reads it.
-/
theorem found_of_read {d : Dialect} (hd : d ∈ Dialect.all) {text : String}
    {doc : Document} (h : read d text = .ok doc) :
    dialectOf d text ∈ Dialect.all
      ∧ Found (dialectOf d text) (withFinalBreak text.toList)
        (withFinalBreak text.toList) doc.writtenSteps [] := by
  have hyields : Yields (document d) (withFinalBreak text.toList) doc [] :=
    (read_eq_ok_iff.mp h).1
  obtain ⟨_, r₁, hskip, h⟩ := hyields.bind
  obtain ⟨o, r₂, hlanguage, hbody⟩ := h.bind
  obtain rfl := hskip.skip
  have hnamed : o = named? text := hlanguage.optional_eq
  have hmem : o.getD d ∈ Dialect.all := by
    rcases hlanguage.optional with ⟨d', rfl, hd'⟩ | ⟨rfl, -⟩
    · exact mem_all_of_languageLine hd'
    · exact hd
  rw [dialectOf, ← hnamed]
  have hr₂ := (trims_languageLine.optional hlanguage).trans
    (skipSpaces_suffix _)
  have hfound := found_body (Dialect.clear_of_mem_all _ hmem)
    (getLast?_withFinalBreak text.toList) hr₂ hbody
  exact ⟨hmem, hfound.wider hr₂⟩

end Document

/-! ## Features -/

/-- What a step has kept of its line. -/
structure Reproduces (st : Step) (l : StepLine) : Prop where
  text : st.text.toList = l.text
  keyword : st.keyword.toList = l.bare ++ l.separator
  line : trimEnd (st.keyword ++ st.text).toList = trimEnd l.spaced
    ↔ ¬ (l.gap = [] ∧ ∃ c ∈ l.text.head?, isBlank c = true)
  again : spelledKeyword l.word.toList (st.keyword ++ st.text).toList
    = st.keyword.toList

/-- **The lines of the steps.**  Whatever text is read as a feature, in
whatever dialect, the steps of its document stand on lines of the text that
follow one another, and the steps of the feature are among them.  Keyword
and text of a step are its line, with one space for the spaces between them
and up to blanks at the end, unless the text starts with a blank of another
kind right behind the word; and the keyword is found again in what they
are. -/
theorem Feature.read_lines {d : Dialect} (hd : d ∈ Dialect.all)
    {text : String} {f : Feature} (hread : Feature.read d text = .ok f) :
    ∃ doc, Document.read d text = .ok doc ∧ doc.toFeature = f
      ∧ (∀ st ∈ f.steps, st ∈ doc.writtenSteps)
      ∧ ∃ lines : List StepLine, lines.Pairwise StepLine.Follows
        ∧ List.Forall₂ (fun st l => Reproduces st l
            ∧ StandsIn (Document.dialectOf d text)
              (Document.withFinalBreak text.toList) l)
          doc.writtenSteps lines := by
  obtain ⟨doc, hdoc, rfl⟩ := Feature.read_eq_ok_iff.mp hread
  obtain ⟨hmem, hfound⟩ := Document.found_of_read hd hdoc
  obtain ⟨lines, hfollows, hshows, -⟩ := hfound.lines
  have hclear := Dialect.clear_of_mem_all _ hmem
  refine ⟨doc, hdoc, rfl, fun st hst => Document.mem_writtenSteps hst, lines,
    hfollows, hshows.flip.imp fun st l ⟨hl, h⟩ => ⟨?_, hl⟩⟩
  exact ⟨h.text, h.keyword_eq hclear hl, h.line_iff hclear hl,
    h.recovered hclear hl⟩

namespace StepPlaces

/-- A document in the dialect `ja`, which needs no space behind a keyword.
Its first step belongs to a rule and has a tab and spaces there, and in
front of its second step stands a comment. -/
def sample : String :=
  "機能: f\nRule: r\n 背景:\n\t前提 \t y\nシナリオ: s\n # c\n  もしx  \n"

/-- The first step of the sample. -/
def given : Step :=
  ⟨"前提 ", "y", none⟩

/-- The second step of the sample. -/
def when : Step :=
  ⟨"もし", "x", none⟩

/-- What the sample is read as. -/
def sampleDocument : Document :=
  ⟨"f", [], none, [],
    [⟨[], some ⟨"背景", "", [given]⟩, [⟨"シナリオ", "s", [], [when], []⟩]⟩]⟩

/-- A document whose step goes on behind its word with an ideographic
space, which is a blank but not a space of the grammar. -/
def wide : String :=
  "機能: f\nシナリオ: s\nもし\u3000x\n"

/-- The line of the step in that document, cut at its word. -/
def wideLine : StepLine where
  before := "機能: f\nシナリオ: s\n".toList
  word := "もし"
  gap := []
  text := ['\u3000', 'x']
  trailing := []
  behind := ['\n']

/-- The sample is read as that document. -/
theorem read_sample :
    Document.read .japanese sample = .ok sampleDocument := by cbv

/-- Its steps are these two. -/
theorem sample_steps : sampleDocument.writtenSteps = [given, when] := rfl

/-- The line is a line of that document. -/
theorem whole_wideLine : wideLine.before ++ wideLine.rest = wide.toList := by
  cbv

/-- It ends where the document has a line feed. -/
theorem ends_wideLine :
    spanLine wideLine.rest = (wideLine.chars, wideLine.behind) := by cbv

/-- It begins where a line begins. -/
theorem begins_wideLine : Begins wideLine.before := by
  have hbefore : wideLine.before = "機能: f\nシナリオ: s".toList ++ ['\n'] := by
    cbv
  rw [hbefore]
  exact .line _ (by simp)

/-- Its word is the one that it is read with. -/
theorem fits_wideLine :
    Fits Dialect.japanese.whenWords wideLine.rest "もし" := by cbv

/-- The ideographic space belongs to the text of the step. -/
theorem settled_wideLine : Settled ['\u3000', 'x'] := by
  have hlast : isBlank 'x' = false := by decide
  exact ⟨by simp, by simp [isSpace], by simpa using hlast⟩

/-- So the line stands in the document. -/
theorem standsIn_wideLine : StandsIn .japanese wide.toList wideLine where
  whole := whole_wideLine
  begins := begins_wideLine
  ends := ends_wideLine
  fits := ⟨_, by simp [Dialect.stepKinds], fits_wideLine⟩
  gap := List.forall_mem_nil _
  text := settled_wideLine
  trailing := rfl
  nonempty := List.cons_ne_nil _ _

end StepPlaces

/-- The steps of a document without spaces behind its keywords, one of
which stands behind a comment. -/
theorem Feature.read_lines_japanese :
    Dialect.japanese ∈ Dialect.all
      ∧ Feature.read .japanese StepPlaces.sample
        = .ok StepPlaces.sampleDocument.toFeature
      ∧ ∃ first second : StepLine, first.Follows second
        ∧ Reproduces StepPlaces.given first
        ∧ Reproduces StepPlaces.when second := by
  have hd : Dialect.japanese ∈ Dialect.all := by simp [Dialect.all]
  have hread : Feature.read .japanese StepPlaces.sample
      = .ok StepPlaces.sampleDocument.toFeature :=
    Feature.read_eq_ok_iff.mpr ⟨_, StepPlaces.read_sample, rfl⟩
  obtain ⟨doc, hdoc, -, -, lines, hfollows, hlines⟩ :=
    Feature.read_lines hd hread
  obtain rfl := Except.ok.inj (StepPlaces.read_sample.symm.trans hdoc)
  rw [StepPlaces.sample_steps] at hlines
  obtain ⟨first, rest, ⟨hfirst, -⟩, hrest, rfl⟩ :=
    List.forall₂_cons_left_iff.mp hlines
  obtain ⟨second, rest, ⟨hsecond, -⟩, -, rfl⟩ :=
    List.forall₂_cons_left_iff.mp hrest
  exact ⟨hd, hread, first, second,
    (List.pairwise_cons.mp hfollows).1 second List.mem_cons_self, hfirst,
    hsecond⟩

/-- **Not every step is its line.**  Where a blank that is no space of the
grammar stands right behind the word, it belongs to the text, but the
keyword is set off by a space that the line does not have. -/
theorem Feature.read_wide_space :
    Feature.read .japanese StepPlaces.wide = .ok ⟨"f", [], [.scenario
        ⟨"シナリオ", "s", [], [⟨"もし ", "\u3000x", none⟩], none⟩]⟩
      ∧ StandsIn .japanese StepPlaces.wide.toList StepPlaces.wideLine
      ∧ trimEnd ("もし " ++ "\u3000x").toList = "もし \u3000x".toList
      ∧ trimEnd StepPlaces.wideLine.spaced = "もし\u3000x".toList := by
  refine ⟨by cbv, StepPlaces.standsIn_wideLine, by cbv, by cbv⟩

end SoloScenario
