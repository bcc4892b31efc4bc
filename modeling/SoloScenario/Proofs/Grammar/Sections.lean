import SoloScenario.Grammar.Section
import SoloScenario.Proofs.Grammar.Steps

/-!
# Reading sections back

The parts of a section in a clear dialect.  Below a heading the first word
of the next line ends the description, or the text is over, so that the
description is always empty.

* `takes_tags` — tags, one to a line;
* `SectionText.takes` — a heading and the steps below it;
* `takes_background`, `takes_examples` — whole sections;
* `declines_examples` — where no example section follows.
-/

namespace SoloScenario.Grammar

open Reader Text

/-! ## Tags -/

/-- The name of a tag, without its `@`, that is read back as it is. -/
structure TagText (name : List Char) : Prop where
  ne_nil : name ≠ []
  inside : ∀ c ∈ name, isBlank c = false ∧ c ≠ '@'

/-- The lines of some tags. -/
def tagLines (names : List String) : List String :=
  names.map ("@" ++ ·)

/-- Each tag has a line of its own. -/
theorem textOf_tagLines_cons (name : String) (names : List String)
    (r : List Char) :
    textOf (tagLines (name :: names)) ++ r
      = '@' :: (name.toList ++ '\n' :: (textOf (tagLines names) ++ r)) := by
  simp [tagLines]

/-- Tags start with a sign that is no gap. -/
theorem flush_tagLines (names : List String) {r : List Char}
    (hr : Flush r) : Flush (textOf (tagLines names) ++ r) := by
  cases names with
  | nil => exact hr
  | cons name names =>
      rw [textOf_tagLines_cons]
      exact flush_cons (by decide) _

/-- A tag is read up to its line feed. -/
theorem takes_tag {name : List Char} (h : TagText name) (r : List Char) :
    Takes tag ('@' :: (name ++ '\n' :: r)) (String.ofList name)
      ('\n' :: r) := by
  have hinside : ∀ c ∈ name, (!isBlank c && !c == '@') = true := by
    intro c hc
    obtain ⟨hblank, hat⟩ := h.inside c hc
    simp [hblank, hat]
  have hstop : (!isBlank '\n' && ! '\n' == '@') = false := by
    decide
  have htake : (name ++ '\n' :: r).takeWhile
      (fun c => !isBlank c && !c == '@') = name := by
    rw [List.takeWhile_append_of_pos hinside, List.takeWhile_cons, hstop]
    simp
  have hdrop : (name ++ '\n' :: r).dropWhile
      (fun c => !isBlank c && !c == '@') = '\n' :: r := by
    rw [List.dropWhile_append_of_pos hinside, List.dropWhile_cons, hstop]
    simp
  refine (takes_literal "@" _).bind ⟨?_, rfl⟩
  simp [tagName, htake, hdrop, h.ne_nil]

/-- A tag is only read where its sign stands. -/
theorem declines_tag {r : List Char} (h : ∀ c ∈ r.head?, c ≠ '@') :
    Declines tag r :=
  (declines_literal_of_head rfl h).bind

/-- Later tags are read one after the other. -/
theorem takes_laterTags {names : List String}
    (h : ∀ n ∈ names, TagText n.toList) {r : List Char} (hr : Flush r)
    (hat : ∀ c ∈ r.head?, c ≠ '@') :
    Takes (many (do skip skipGap; tag))
      ('\n' :: (textOf (tagLines names) ++ r)) names ('\n' :: r) := by
  have hend : Declines (do skip skipGap; tag) ('\n' :: r) :=
    (takes_skip hr.skipGap_newline).bind_declines (declines_tag hat)
  have hall := takes_many (g := id)
    (w := fun names => '\n' :: (textOf (tagLines names) ++ r)) hend
    (fun name names h => ?_) (fun name names => ?_) h
  · rwa [List.map_id] at hall
  · have hname := takes_tag (h name List.mem_cons_self)
      (textOf (tagLines names) ++ r)
    have hgap := (flush_tagLines (name :: names) hr).skipGap_newline
    rw [String.ofList_toList, ← textOf_tagLines_cons] at hname
    exact (takes_skip hgap).bind hname
  · rw [textOf_tagLines_cons]
    simp only [List.length_cons, List.length_append]
    omega

/-- **Tags come back whole**, none at all included. -/
theorem takes_tags {names : List String} (h : ∀ n ∈ names, TagText n.toList)
    {r : List Char} (hr : Flush r) (hat : ∀ c ∈ r.head?, c ≠ '@') :
    Takes tags (textOf (tagLines names) ++ r) names r := by
  cases names with
  | nil =>
      exact (declines_tag hat).chain.bind <|
        (takes_skip hr.skipSpaces).bind <|
        (takes_skip hr.skipNewlines).bind (takes_give [] r)
  | cons name names =>
      have hlater := takes_laterTags
        (fun n hn => h n (List.mem_cons_of_mem _ hn)) hr hat
      have hname := takes_tag (h name List.mem_cons_self)
        (textOf (tagLines names) ++ r)
      rw [String.ofList_toList] at hname
      rw [textOf_tagLines_cons]
      -- The gap behind the last tag is given back, break and all.
      exact (hname.chain hlater).bind <|
        (takes_skip (skipSpaces_newline r)).bind <|
        (takes_skip hr.skipNewlines_newline).bind (takes_give _ r)

/-! ## Descriptions -/

/-- A description ends in front of this text: there is none, or a tag or
one of the words starts it. -/
def Ends (stops : List String) (r : List Char) : Prop :=
  r = [] ∨ ∃ w ∈ "@" :: stops, w.toList <+: r

/-- A word that fits is read, up to blanks at its end. -/
theorem takes_word_of_fits {words : List String} {r : List Char} {w : String}
    (h : Fits words r w) : ∃ u, Takes (word words) r w u := by
  obtain ⟨u, hu⟩ := h.starts
  rw [← hu] at h ⊢
  exact ⟨u, takes_word h⟩

/-- A description ends in front of a word that ends it. -/
theorem declines_descriptionLine {stops : List String} {r : List Char}
    (hr : Flush r) (h : Ends stops r) :
    Declines (descriptionLine stops) r := by
  refine (takes_skip hr.skipSpaces).bind_declines ?_
  by_cases hat : "@".toList <+: r
  · obtain ⟨t, rfl⟩ := hat
    exact (takes_literal "@" t).notAhead.bind
  · refine (declines_literal hat).notAhead.bind_declines ?_
    rcases noWord_or_fits stops r with hno | ⟨w, hw⟩
    · -- No word is left that could end the text but its own end.
      have hnil : r = [] := by
        rcases h with hnil | ⟨w, hw, hprefix⟩
        · exact hnil
        · rcases List.mem_cons.mp hw with rfl | hw
          · exact absurd hprefix hat
          · exact absurd hprefix (hno w hw)
      subst hnil
      exact (declines_keyword hr hno).notAhead.bind_declines <|
        (takes_skip rfl).bind_declines declines_restOfLine_nil.bind
    · obtain ⟨u, hu⟩ := takes_word_of_fits hw
      exact (takes_keyword hr hu).notAhead.bind

/-- Below a heading nothing is taken for a description. -/
theorem takes_description {stops : List String} {r : List Char}
    (hr : Flush r) (h : Ends stops r) : Takes (description stops) r () r :=
  (declines_descriptionLine hr h).chain.bind (takes_skip hr.skipGap)

/-! ## Headings and steps -/

/-- A heading is written as its word, a colon, a space and its name. -/
theorem headingLine_toList (w name : String) (r : List Char) :
    (headingLine w name).toList ++ '\n' :: r
      = w.toList ++ ':' :: ' ' :: (name.toList ++ '\n' :: r) := by
  simp [headingLine]

/-- A heading as it is written comes back, with or without a name. -/
theorem takes_headingLine {words : List String} {w name : String}
    {r : List Char} (hwords : ∀ v ∈ words, WordText v.toList)
    (hw : Fits words w.toList w) (hname : Settled name.toList)
    (hr : Flush r) :
    Takes (heading words) ((headingLine w name).toList ++ '\n' :: r)
      (w, name) r := by
  have hcolon : ∀ v ∈ words, ':' ∉ v.toList :=
    fun v hv => (hwords v hv).no_colon
  have hflush := ((hwords w hw.mem).apart
    (':' :: ' ' :: (name.toList ++ '\n' :: r))).flush
  have hword := takes_word ((fits_stop hcolon w.toList
    (' ' :: (name.toList ++ '\n' :: r))).mpr hw)
  have hspaces : skipSpaces (' ' :: (name.toList ++ '\n' :: r))
      = name.toList ++ '\n' :: r :=
    hname.skipSpaces r
  have h := takes_heading hflush hword hspaces hname hr
  rw [String.ofList_toList] at h
  rwa [headingLine_toList]

/-- A heading with another word is passed over. -/
theorem declines_headingLine {words : List String} {w : String}
    (hwords : ∀ v ∈ words, WordText v.toList) (hw : WordText w.toList)
    (hother : w ∉ words) (name : String) (r : List Char) :
    Declines (heading words) ((headingLine w name).toList ++ '\n' :: r) := by
  rw [headingLine_toList]
  exact declines_heading_other (hw.apart _).flush
    (fun v hv => (hwords v hv).no_colon) hw.no_colon hother

/-- No word starts a tag. -/
theorem noWord_at {words : List String}
    (hwords : ∀ v ∈ words, WordText v.toList) (t : List Char) :
    NoWord words ('@' :: t) := by
  rintro v hv ⟨u, hu⟩
  refine (hwords v hv).no_at u '@' ?_ rfl
  rw [hu]
  rfl

/-- No word stands at the end of the text. -/
theorem noWord_nil {words : List String}
    (hwords : ∀ v ∈ words, WordText v.toList) : NoWord words [] := by
  intro v hv hprefix
  exact (hwords v hv).ne_nil (List.prefix_nil.mp hprefix)

/-- A name and steps that are read back as they are; either may be
missing. -/
structure SectionText (d : Dialect) (name : String) (steps : List Step) :
    Prop where
  name : Settled name.toList
  steps : StepsText d steps

section Body

variable {d : Dialect} (hd : d.Clear) {ss : List Step} {r : List Char}
include hd

/-- The first step below a heading ends the description. -/
theorem StepsText.ends (h : StepsText d ss)
    (hr : ss ≠ [] ∨ Ends d.scenarioStops r) :
    Ends d.scenarioStops (textOf (ss.flatMap Step.lines) ++ r) := by
  cases ss with
  | nil => exact hr.resolve_left fun hne => hne rfl
  | cons s ss =>
      obtain ⟨w, hw, -⟩ := (h.first s rfl).fits hd
        (textOf (ss.flatMap Step.lines) ++ r)
      have hmem : w ∈ d.scenarioStops := List.mem_append_right _ hw.mem
      rw [List.flatMap_cons, textOf_append, List.append_assoc]
      exact Or.inr ⟨w, List.mem_cons_of_mem _ hmem, hw.starts⟩

/-- **A heading comes back with the steps below it**; nothing in between
is taken for a description. -/
theorem SectionText.takes {words : List String} {w name : String}
    (h : SectionText d name ss) (hr : BehindSteps d r)
    (hends : ss ≠ [] ∨ Ends d.scenarioStops r)
    (hwords : ∀ v ∈ words, WordText v.toList) (hw : Fits words w.toList w) :
    ∃ mid, Takes (heading words)
        (textOf (headingLine w name :: ss.flatMap Step.lines) ++ r)
        (w, name) mid
      ∧ Takes (description d.scenarioStops) mid () mid
      ∧ Takes (Grammar.steps d) mid ss r := by
  have hbelow := (apart_steps hd h.steps.first hr.apart).flush
  refine ⟨_, ?_, takes_description hbelow (h.steps.ends hd hends),
    takes_steps hd h.steps hr⟩
  rw [textOf_cons, List.append_assoc, List.cons_append]
  exact takes_headingLine hwords hw h.name hbelow

end Body

/-! ## Whole sections -/

section Tagged

variable {α : Type} {names words : List String} {s : List Char}
  {k : List String → String × String → Reader α}

/-- Tags and a heading, in front of whatever else a section has. -/
theorem takes_tagged {x : String × String} {a : α} {mid r : List Char}
    (h : ∀ n ∈ names, TagText n.toList) (hs : Flush s)
    (hat : ∀ c ∈ s.head?, c ≠ '@') (hheading : Takes (heading words) s x mid)
    (hk : Takes (k names x) mid a r) :
    Takes (do
        skip skipComments
        skip skipSpaces
        let own ← tags
        skip skipSpaces
        let found ← heading words
        k own found)
      (textOf (tagLines names) ++ s) a r := by
  have htext := flush_tagLines names hs
  exact (takes_skip htext.skipComments).bind <|
    (takes_skip htext.skipSpaces).bind <|
    (takes_tags h hs hat).bind <|
    (takes_skip hs.skipSpaces).bind (hheading.bind hk)

/-- Tags alone do not make a section. -/
theorem declines_tagged (h : ∀ n ∈ names, TagText n.toList) (hs : Flush s)
    (hat : ∀ c ∈ s.head?, c ≠ '@') (hheading : Declines (heading words) s) :
    Declines (do
        skip skipComments
        skip skipSpaces
        let own ← tags
        skip skipSpaces
        let found ← heading words
        k own found)
      (textOf (tagLines names) ++ s) := by
  have htext := flush_tagLines names hs
  exact (takes_skip htext.skipComments).bind_declines <|
    (takes_skip htext.skipSpaces).bind_declines <|
    (takes_tags h hs hat).bind_declines <|
    (takes_skip hs.skipSpaces).bind_declines hheading.bind

end Tagged

/-- A background that is read back as it is. -/
structure BackgroundText (d : Dialect) (b : Background) : Prop where
  keyword : Fits d.background b.keyword.toList b.keyword
  body : SectionText d b.name b.steps

/-- Examples are written as a heading and a table. -/
theorem examples_toList (e : ExampleBlock) (r : List Char) :
    textOf e.lines ++ r = "Examples".toList ++ ':' :: '\n' ::
      (textOf ((e.header :: e.body).map Row.line) ++ r) := by
  simp [ExampleBlock.lines]

section Sections

variable {d : Dialect} (hd : d.Clear) {r : List Char}
include hd

/-- **A background comes back whole.** -/
theorem takes_background {b : Background} (h : BackgroundText d b)
    (hr : BehindSteps d r) (hends : Ends d.scenarioStops r) :
    Takes (background d) (textOf b.lines ++ r) b r := by
  obtain ⟨w, name, ss⟩ := b
  obtain ⟨mid, hheading, hdescription, hsteps⟩ :=
    h.body.takes hd hr (Or.inr hends) hd.background_words h.keyword
  have htext : Flush (textOf (Background.lines ⟨w, name, ss⟩) ++ r) := by
    rw [Background.lines, textOf_cons, List.append_assoc, List.cons_append,
      headingLine_toList]
    exact ((hd.background_words w h.keyword.mem).apart _).flush
  exact (takes_skip htext.skipComments).bind <|
    (takes_skip htext.skipSpaces).bind <|
    hheading.bind <| hdescription.bind <| hsteps.bind (takes_give _ r)

/-- **An example section comes back whole**, in a dialect that has the
word it is written with. -/
theorem takes_examples {e : ExampleBlock} (hsheet : "Examples" ∈ d.examples)
    (h : ArgumentText (.table (e.header :: e.body))) (hr : Apart r) :
    Takes (examples d) (textOf e.lines ++ r)
      ⟨some (e.header :: e.body)⟩ r := by
  obtain ⟨hne, ⟨width, hwidth⟩, hcells⟩ := h
  have hrows : Flush (textOf ((e.header :: e.body).map Row.line) ++ r) :=
    flush_rows _ hr.flush
  have hword := hd.examples_words _ hsheet
  have hcolon : ∀ v ∈ d.examples, ':' ∉ v.toList :=
    fun v hv => (hd.examples_words v hv).no_colon
  have hfits := (fits_stop hcolon "Examples".toList
    ('\n' :: (textOf ((e.header :: e.body).map Row.line) ++ r))).mpr
    (hd.sheet hsheet).1
  have hheading := takes_heading (hword.apart _).flush (takes_word hfits)
    (skipSpaces_newline (textOf ((e.header :: e.body).map Row.line) ++ r))
    settled_nil hrows
  have hends : Ends d.examplesStops
      (textOf ((e.header :: e.body).map Row.line) ++ r) := by
    rw [textOf_rows]
    exact Or.inr ⟨"|", by simp [Dialect.examplesStops], _, rfl⟩
  rw [examples_toList]
  exact @takes_tagged _ [] _ _ _ _ _ _ _ (by simp) (hword.apart _).flush
    (hword.no_at _) hheading <|
    (takes_description hrows hends).bind <|
    (takes_table hne hwidth hcells hr.flush hr.bar).optional.bind <|
    takes_give _ r

end Sections

/-- There is no background without its heading. -/
theorem declines_background {d : Dialect} {r : List Char} (hr : Flush r)
    (h : Declines (heading d.background) r) : Declines (background d) r :=
  (takes_skip hr.skipComments).bind_declines <|
    (takes_skip hr.skipSpaces).bind_declines h.bind

/-- There are no examples without their heading, even if tags stand there. -/
theorem declines_examples {d : Dialect} {names : List String}
    (h : ∀ n ∈ names, TagText n.toList) {r : List Char} (hr : Flush r)
    (hat : ∀ c ∈ r.head?, c ≠ '@')
    (hheading : Declines (heading d.examples) r) :
    Declines (examples d) (textOf (tagLines names) ++ r) :=
  declines_tagged h hr hat hheading

end SoloScenario.Grammar
