import SoloScenario.Proofs.Grammar.Scenarios
import SoloScenario.Proofs.Grammar.Yields

/-!
# What a document holds that was read

Whatever the text was, a document that was read in a clear dialect holds
names and texts that can stand on a line, keywords that would be found
again, tables of one width and tags without blanks (`ReadDocument`).  A
step was found by one of the dialect's words, and by one of those that
open a section where it is the first of its section (`ReadSteps`).
-/

namespace SoloScenario.Grammar

open Reader Text

/-! ## Steps -/

/-- What is known of an argument that was read. -/
def ReadArgument : StepArgument → Prop
  | .table rows => ArgumentText (.table rows)
  | .docString content => NoBlankLine content.toList

/-- A step that was read, as the first one of its section or as a later
one. -/
structure ReadStep (d : Dialect) (first : Bool) (s : Step) : Prop where
  keyword : ∃ w ∈ d.stepWords, Spelled w s
    ∧ (first = true → w ∈ d.openingWords)
  text : Settled s.text.toList
  argument : ∀ a ∈ s.argument, ReadArgument a

/-- Spaces are blanks. -/
theorem trimStart_skipSpaces (s : List Char) :
    trimStart (skipSpaces s) = trimStart s := by
  induction s with
  | nil => rfl
  | cons c s ih =>
      by_cases hc : isSpace c = true
      · have hblank : isBlank c = true := by
          by_contra hnot
          simp [isSpace_of_not_blank (by simpa using hnot)] at hc
        simpa [skipSpaces, trimStart, hc, hblank] using ih
      · simp [skipSpaces, hc]

/-- In front of a comment there is no word. -/
theorem no_comment_of_word {w s : List Char} (hw : WordText w)
    (h : w <+: trimStart s) : skipComments s = s := by
  refine exhaust_of_none ?_
  cases hcomment : atComment? s with
  | none => rw [atCommentLine?, hcomment]; rfl
  | some r =>
      obtain ⟨t, ht, -⟩ := atComment?_eq_some hcomment
      have hstart : trimStart s = '#' :: t := by
        rw [← trimStart_skipSpaces, ht]
        rfl
      obtain ⟨u, hu⟩ := h
      have hhash := hw.head_other u '#' (by rw [hu, hstart]; rfl)
      simp at hhash

/-- A keyword is spelled with a space, or else the text behind its word
goes on at once. -/
theorem spelledKeyword_cases {w source u : List Char} (hw : WordText w)
    (hgap : ∀ c ∈ w.drop (trimEnd w).length, isSpace c = true)
    (h : skipComments source = w ++ u) :
    spelledKeyword w source = trimEnd w ++ [' ']
      ∨ spelledKeyword w source = trimEnd w
        ∧ ∀ c ∈ (skipSpaces u).head?, isBlank c = false := by
  by_cases hprefix : trimEnd w <+: trimStart source
  · have hsource : source = w ++ u := by
      rw [← h, no_comment_of_word (wordText_trimEnd hw) hprefix]
    have hsplit : source
        = trimEnd w ++ (w.drop (trimEnd w).length ++ u) := by
      rw [← List.append_assoc, trimEnd_append_drop, hsource]
    rw [hsplit]
    cases hrest : w.drop (trimEnd w).length ++ u with
    | nil =>
        have hhead := (wordText_trimEnd hw).head_not_blank []
        rw [List.append_nil] at hhead ⊢
        exact Or.inl (by simp [spelledKeyword, trimStart_of_head hhead])
    | cons c v =>
        rw [spelledKeyword_eq hw]
        by_cases hc : isBlank c = true
        · exact Or.inl (if_pos hc)
        · refine Or.inr ⟨if_neg hc, ?_⟩
          have hspace : isSpace c = false :=
            isSpace_of_not_blank (by simpa using hc)
          rw [← skipSpaces_append hgap, hrest,
            skipSpaces_of_head (forall_head hspace v)]
          exact forall_head (by simpa using hc) v
  · have hnot : (trimEnd w).isPrefixOf (trimStart source) = false :=
      Bool.eq_false_iff.mpr fun hp =>
        hprefix (List.isPrefixOf_iff_prefix.mp hp)
    exact Or.inl (by simp [spelledKeyword, hnot])

/-- The steps of a section that was read. -/
structure ReadSteps (d : Dialect) (ss : List Step) : Prop where
  first : ∀ s ∈ ss.head?, ReadStep d true s
  later : ∀ s ∈ ss.tail, ReadStep d false s

/-- An argument comes from the table, or else from the doc string. -/
theorem readArgument_of {content : Option String} {rows : Option (List Row)}
    (hcontent : ∀ c ∈ content, NoBlankLine c.toList)
    (hrows : ∀ r ∈ rows, ArgumentText (.table r)) :
    ∀ a ∈ argumentOf content rows, ReadArgument a := by
  intro a ha
  rcases Option.or_eq_some_iff.mp ha with htable | ⟨-, hdoc⟩
  · obtain ⟨r, hr, rfl⟩ := Option.map_eq_some_iff.mp htable
    exact hrows r hr
  · obtain ⟨c, hc, rfl⟩ := Option.map_eq_some_iff.mp hdoc
    exact hcontent c hc

section Steps

variable {d : Dialect} (hd : d.Clear) {words : List String}
  {s r : List Char} {st : Step}
include hd

/-- A step that was read was found by one of the words. -/
theorem Yields.stepWith (hwords : words ⊆ d.stepWords)
    (hstep : Yields (stepWith words) s st r) :
    (∃ w ∈ words, Spelled w st) ∧ Settled st.text.toList
      ∧ ∀ a ∈ st.argument, ReadArgument a := by
  obtain ⟨source, r₁, hahead, h⟩ := hstep.bind
  obtain ⟨found, r₂, hfound, h⟩ := h.bind
  obtain ⟨_, r₃, hskip, h⟩ := h.bind
  obtain ⟨text, r₄, htext, h⟩ := h.bind
  obtain ⟨-, r₅, -, h⟩ := h.bind
  obtain ⟨-, r₆, -, h⟩ := h.bind
  obtain ⟨-, r₇, -, h⟩ := h.bind
  obtain ⟨content, r₈, hcontent, h⟩ := h.bind
  obtain ⟨rows, r₉, hrows, hgive⟩ := h.bind
  obtain ⟨rfl, -⟩ := hgive.give
  obtain ⟨rfl, rfl⟩ := hahead.ahead
  obtain ⟨hfits, hsource⟩ := hfound.keyword
  have hmem := hwords hfits.mem
  have hr := hskip.skip
  subst hr
  refine ⟨⟨found, hfits.mem, ?_⟩, htext.settled, ?_⟩
  · obtain ⟨l, hl, -, hhead⟩ := htext.lineText
    simp only [Spelled, String.toList_ofList]
    refine (spelledKeyword_cases (hd.step hmem) (hd.separator _ hmem)
      hsource).imp_right fun ⟨hbare, hnext⟩ => ⟨hbare, ?_⟩
    rw [← hhead] at hnext
    rw [hl, head?_trimEnd hnext]
    exact hnext
  · refine readArgument_of ?_ ?_
    · rcases hcontent.optional with ⟨c, rfl, hc⟩ | ⟨rfl, -⟩
      · simpa using hc.docString
      · simp
    · rcases hrows.optional with ⟨rows, rfl, ht⟩ | ⟨rfl, -⟩
      · simpa using ht.table
      · simp

/-- A step that was read as the first of its section was found by a word
that opens a section. -/
theorem Yields.step {first : Bool} (hstep : Yields (step d first) s st r) :
    ReadStep d first st := by
  have hopening : ∀ {words : List String} {s : List Char},
      words ⊆ d.openingWords → Yields (Grammar.stepWith words) s st r →
      ReadStep d first st := by
    intro words s hwords h
    have hsub : d.openingWords ⊆ d.stepWords :=
      d.stepWords_eq ▸ List.subset_append_left _ _
    obtain ⟨⟨w, hw, hspelled⟩, htext, hargument⟩ :=
      h.stepWith hd (List.Subset.trans hwords hsub)
    exact ⟨⟨w, hsub (hwords hw), hspelled, fun _ => hwords hw⟩, htext,
      hargument⟩
  have hcontinuing : ∀ {words : List String}, words ⊆ d.continuingWords →
      Yields (continuation first words) s st r → ReadStep d first st := by
    intro words hwords h
    have hsub : d.continuingWords ⊆ d.stepWords :=
      d.stepWords_eq ▸ List.subset_append_right _ _
    obtain ⟨found, r₁, hfound, h⟩ := h.bind
    cases first with
    | true => simp [Yields, decline] at h
    | false =>
        obtain ⟨rfl, rfl⟩ := h.give
        obtain ⟨⟨w, hw, hspelled⟩, htext, hargument⟩ :=
          hfound.stepWith hd (List.Subset.trans hwords hsub)
        exact ⟨⟨w, hsub (hwords hw), hspelled, by simp⟩, htext, hargument⟩
  rcases hstep.orElse with h | h
  · obtain ⟨-, r₁, -, h⟩ := h.bind
    exact hopening (fun w hw => by simp [Dialect.openingWords, hw]) h
  · rcases h.orElse with h | h
    · exact hopening (fun w hw => by simp [Dialect.openingWords, hw]) h
    · rcases h.orElse with h | h
      · exact hopening (fun w hw => by simp [Dialect.openingWords, hw]) h
      · rcases h.orElse with h | h
        · exact hcontinuing (List.subset_append_left _ _) h
        · exact hcontinuing (List.subset_append_right _ _) h

/-- Steps that are read are what reading gives. -/
theorem Yields.steps {ss : List Step} (h : Yields (steps d) s ss r) :
    ReadSteps d ss := by
  obtain ⟨hfirst, hlater⟩ := Yields.chain (fun h => h.step hd)
    (fun h => h.step hd) h
  exact ⟨hfirst, hlater⟩

end Steps

/-! ## Sections -/

/-- A background that was read. -/
structure ReadBackground (d : Dialect) (b : Background) : Prop where
  keyword : Fits d.background b.keyword.toList b.keyword
  name : Settled b.name.toList
  steps : ReadSteps d b.steps

/-- A scenario that was read. -/
structure ReadScenario (d : Dialect) (s : Document.Scenario) : Prop where
  keyword : Fits d.scenario s.keyword.toList s.keyword
    ∨ Fits d.outline s.keyword.toList s.keyword
  name : Settled s.name.toList
  tags : ∀ n ∈ s.tags, TagText n.toList
  steps : ReadSteps d s.steps
  examples : ∀ e ∈ s.examples, ∀ rows ∈ e.table,
    ArgumentText (.table rows)

/-- A rule that was read. -/
structure ReadRule (d : Dialect) (rule : Document.Rule) : Prop where
  tags : ∀ n ∈ rule.tags, TagText n.toList
  background : ∀ b ∈ rule.background, ReadBackground d b
  scenarios : ∀ s ∈ rule.scenarios, ReadScenario d s

/-- A document that was read. -/
structure ReadDocument (d : Dialect) (doc : Document) : Prop where
  name : Settled doc.name.toList
  tags : ∀ n ∈ doc.tags, TagText n.toList
  background : ∀ b ∈ doc.background, ReadBackground d b
  scenarios : ∀ s ∈ doc.scenarios, ReadScenario d s
  rules : ∀ rule ∈ doc.rules, ReadRule d rule

/-- The table of example blocks that are read can be written. -/
theorem Yields.examples {d : Dialect} {s r : List Char}
    {e : Document.Examples}
    (h : Yields (examples d) s e r) :
    ∀ rows ∈ e.table, ArgumentText (.table rows) := by
  obtain ⟨-, r₁, -, h⟩ := h.bind
  obtain ⟨-, r₂, -, h⟩ := h.bind
  obtain ⟨-, r₃, -, h⟩ := h.bind
  obtain ⟨-, r₄, -, h⟩ := h.bind
  obtain ⟨-, r₅, -, h⟩ := h.bind
  obtain ⟨-, r₆, -, h⟩ := h.bind
  obtain ⟨rows, r₇, hrows, h⟩ := h.bind
  obtain ⟨rfl, -⟩ := h.give
  rcases hrows.optional with ⟨rows, rfl, ht⟩ | ⟨rfl, -⟩
  · simpa using ht.table
  · simp

section Sections

variable {d : Dialect} (hd : d.Clear) {s r : List Char}
include hd

/-- A background that is read is what reading gives. -/
theorem Yields.background {b : Background}
    (h : Yields (background d) s b r) : ReadBackground d b := by
  obtain ⟨-, r₁, -, h⟩ := h.bind
  obtain ⟨-, r₂, -, h⟩ := h.bind
  obtain ⟨⟨found, name⟩, r₃, hheading, h⟩ := h.bind
  obtain ⟨-, r₄, -, h⟩ := h.bind
  obtain ⟨body, r₅, hsteps, h⟩ := h.bind
  obtain ⟨rfl, -⟩ := h.give
  obtain ⟨hkeyword, hname⟩ := hheading.heading
    fun w hw => (hd.background_words w hw).no_colon
  exact ⟨hkeyword, hname, hsteps.steps hd⟩

/-- A scenario that is read is what reading gives. -/
theorem Yields.scenario {sc : Document.Scenario}
    (h : Yields (scenario d) s sc r) : ReadScenario d sc := by
  have hwith : ∀ {words : List String}, words ⊆ d.scenarioWords →
      Yields (scenarioWith d words) s sc r →
      Fits words sc.keyword.toList sc.keyword ∧ Settled sc.name.toList
        ∧ (∀ n ∈ sc.tags, TagText n.toList) ∧ ReadSteps d sc.steps
        ∧ ∀ e ∈ sc.examples, ∀ rows ∈ e.table,
          ArgumentText (.table rows) := by
    intro words hwords h
    obtain ⟨-, r₁, -, h⟩ := h.bind
    obtain ⟨-, r₂, -, h⟩ := h.bind
    obtain ⟨own, r₃, hown, h⟩ := h.bind
    obtain ⟨-, r₄, -, h⟩ := h.bind
    obtain ⟨⟨found, name⟩, r₅, hheading, h⟩ := h.bind
    obtain ⟨-, r₆, -, h⟩ := h.bind
    obtain ⟨body, r₇, hsteps, h⟩ := h.bind
    obtain ⟨sections, r₈, hsections, h⟩ := h.bind
    obtain ⟨rfl, -⟩ := h.give
    obtain ⟨hkeyword, hname⟩ := hheading.heading
      fun w hw => (hd.scenario_words w (hwords hw)).no_colon
    exact ⟨hkeyword, hname, hown.tags, hsteps.steps hd,
      hsections.many fun h => h.examples⟩
  rcases h.orElse with h | h
  · obtain ⟨hkeyword, hname, htags, hsteps, hexamples⟩ :=
      hwith (List.subset_append_left _ _) h
    exact ⟨Or.inl hkeyword, hname, htags, hsteps, hexamples⟩
  · obtain ⟨hkeyword, hname, htags, hsteps, hexamples⟩ :=
      hwith (List.subset_append_right _ _) h
    exact ⟨Or.inr hkeyword, hname, htags, hsteps, hexamples⟩

/-- So are several scenarios. -/
theorem Yields.scenarios {ss : List Document.Scenario}
    (h : Yields (scenarios d) s ss r) : ∀ sc ∈ ss, ReadScenario d sc := by
  obtain ⟨-, r₁, -, h⟩ := h.bind
  exact h.chain_all fun h => h.scenario hd

/-- So is a background that may be missing. -/
theorem Yields.background? {o : Option Background}
    (h : Yields (Reader.optional (Grammar.background d)) s o r) :
    ∀ b ∈ o, ReadBackground d b := by
  rcases h.optional with ⟨b, rfl, hb⟩ | ⟨rfl, -⟩
  · simpa using hb.background hd
  · simp

/-- So is a rule, with all that it holds. -/
theorem Yields.rule {group : Document.Rule}
    (h : Yields (rule d) s group r) : ReadRule d group := by
  obtain ⟨-, r₁, -, h⟩ := h.bind
  obtain ⟨own, r₂, hown, h⟩ := h.bind
  obtain ⟨-, r₃, -, h⟩ := h.bind
  obtain ⟨-, r₄, -, h⟩ := h.bind
  obtain ⟨-, r₅, -, h⟩ := h.bind
  obtain ⟨shared, r₆, hshared, h⟩ := h.bind
  obtain ⟨-, r₇, -, h⟩ := h.bind
  obtain ⟨body, r₈, hbody, h⟩ := h.bind
  obtain ⟨-, r₉, -, h⟩ := h.bind
  obtain ⟨rfl, -⟩ := h.give
  exact ⟨hown.tags, hshared.background? hd, hbody.scenarios hd⟩

/-- **What is read in a clear dialect could be read again**, as far as the
grammar alone decides. -/
theorem Yields.body {doc : Document} (h : Yields (body d) s doc r) :
    ReadDocument d doc := by
  obtain ⟨-, r₁, -, h⟩ := h.bind
  obtain ⟨own, r₂, hown, h⟩ := h.bind
  obtain ⟨⟨found, name⟩, r₃, hheading, h⟩ := h.bind
  obtain ⟨-, r₄, -, h⟩ := h.bind
  obtain ⟨shared, r₅, hshared, h⟩ := h.bind
  obtain ⟨-, r₆, -, h⟩ := h.bind
  obtain ⟨top, r₇, htop, h⟩ := h.bind
  obtain ⟨-, r₈, -, h⟩ := h.bind
  obtain ⟨groups, r₉, hgroups, h⟩ := h.bind
  obtain ⟨-, r₁₀, -, h⟩ := h.bind
  obtain ⟨rfl, -⟩ := h.give
  obtain ⟨-, r₁₁, -, hrules⟩ := hgroups.bind
  obtain ⟨-, hname⟩ := hheading.heading
    fun w hw => (hd.feature_words w hw).no_colon
  exact ⟨hname, hown.tags, hshared.background? hd, htop.scenarios hd,
    hrules.chain_all fun h => h.rule hd⟩

end Sections

end SoloScenario.Grammar
