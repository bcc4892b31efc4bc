import Mathlib
import SoloScenario.Proofs.Grammar.Documents

/-!
# Canonical features come back

A feature is **canonical** when its names, texts, tags, cells and doc
strings are such as a writer of feature files would choose
(`Feature.Canonical`).  The text of a canonical feature is read as the
feature itself, up to the example blocks that are never written
(`read_render_canonical`).
-/

namespace SoloScenario

open Grammar Text

/-! ## Canonical trees -/

/-- The keywords that a step may have, the first one of its section or a
later one. -/
def Grammar.stepKeywords (first : Bool) : List String :=
  ["Given ", "When ", "Then "]
    ++ if first then [] else ["And ", "But ", "* "]

/-- A control character. -/
def Text.isControl (c : Char) : Bool :=
  c.toNat < 0x20 || (0x7F ≤ c.toNat && c.toNat ≤ 0x9F)

namespace Canonical

/-- A name or the text of a step. -/
structure Phrase (s : String) : Prop where
  ne_nil : s.toList ≠ []
  no_control : ∀ c ∈ s.toList, isControl c = false
  trimmed : Trimmed s.toList
  no_hash : s.toList.head? ≠ some '#'

/-- A tag: an `@` and letters, digits, underscores or hyphens, at least
one of them. -/
structure TagWord (t : Tag) : Prop where
  at_front : t.name.toList.head? = some '@'
  ne_nil : t.name.toList.tail ≠ []
  inside : ∀ c ∈ t.name.toList.tail, c.isAlphanum ∨ c = '_' ∨ c = '-'

/-- A cell of a table. -/
structure Cell (s : String) : Prop where
  trimmed : Trimmed s.toList
  no_control : ∀ c ∈ s.toList, isControl c = false
  no_bar : '|' ∉ s.toList
  no_backslash : '\\' ∉ s.toList

/-- A table, of a step or of an example block. -/
structure Table (rows : List Row) : Prop where
  ne_nil : rows ≠ []
  width : ∃ width, 0 < width ∧ ∀ row ∈ rows, row.cells.length = width
  cells : ∀ row ∈ rows, ∀ c ∈ row.cells, Cell c

/-- What a step may carry; for doc strings see `DocText`. -/
def Argument : StepArgument → Prop
  | .table rows => Table rows
  | .docString content => DocText content.toList

/-- A step, the first one of its section or a later one. -/
structure Line (first : Bool) (s : Step) : Prop where
  keyword : s.keyword ∈ stepKeywords first
  text : Phrase s.text
  argument : ∀ a ∈ s.argument, Argument a

/-- The steps of a section. -/
structure Steps (ss : List Step) : Prop where
  ne_nil : ss ≠ []
  first : ∀ s ∈ ss.head?, Line true s
  later : ∀ s ∈ ss.tail, Line false s

/-- A background, with a name or without. -/
structure Shared (b : Background) : Prop where
  keyword : b.keyword = "Background"
  name : b.name = "" ∨ Phrase b.name
  steps : Steps b.steps

/-- A scenario or an outline.  The example blocks that are not written do
not matter. -/
structure Single (s : Scenario) : Prop where
  keyword : s.keyword = "Scenario" ∨ s.keyword = "Scenario Outline"
  name : Phrase s.name
  tags : ∀ t ∈ s.tags, TagWord t
  steps : Steps s.steps
  block : ∀ e ∈ s.block?, Table (e.header :: e.body)

end Canonical

/-- **A canonical feature**: at most one background, in front, and at
least one scenario. -/
structure Feature.Canonical (f : Feature) : Prop where
  name : Canonical.Phrase f.name
  tags : ∀ t ∈ f.tags, Canonical.TagWord t
  order : f.children = f.background?.toList.map Child.background
    ++ f.scenarios.map Child.scenario
  ne_nil : f.scenarios ≠ []
  background : ∀ b ∈ f.background?, Canonical.Shared b
  scenarios : ∀ s ∈ f.scenarios, Canonical.Single s

/-! ## Their text -/

namespace Canonical

/-- A text without control characters has no line feed. -/
theorem no_feed {s : List Char} (h : ∀ c ∈ s, isControl c = false) :
    '\n' ∉ s := by
  intro hfeed
  have hcontrol := h _ hfeed
  revert hcontrol
  decide

/-- A phrase neither starts nor ends with a blank. -/
theorem Phrase.settled {s : String} (h : Phrase s) : Settled s.toList :=
  settled_of_trimmed h.trimmed (no_feed h.no_control)

/-- Letters and digits by their code points. -/
theorem alphanum_toNat {c : Char} (h : c.isAlphanum = true) :
    ((0x41 ≤ c.toNat ∧ c.toNat ≤ 0x5A)
      ∨ (0x61 ≤ c.toNat ∧ c.toNat ≤ 0x7A))
      ∨ (0x30 ≤ c.toNat ∧ c.toNat ≤ 0x39) := by
  simp only [Char.isAlphanum, Char.isAlpha, Char.isUpper, Char.isLower,
    Char.isDigit, Bool.or_eq_true, Bool.and_eq_true, decide_eq_true_eq,
    ge_iff_le, UInt32.le_iff_toNat_le] at h
  exact h

/-- A character of a tag is neither blank nor an `@`. -/
theorem not_blank_of_alphanum {c : Char}
    (h : c.isAlphanum ∨ c = '_' ∨ c = '-') :
    isBlank c = false ∧ c ≠ '@' := by
  rcases h with halpha | rfl | rfl
  · have hrange := alphanum_toNat halpha
    constructor
    · refine Bool.eq_false_iff.mpr fun hblank => ?_
      have := (isBlank_ascii (by omega)).mp hblank
      omega
    · rintro rfl
      revert halpha
      decide
  · decide
  · decide

/-- A word behind an `@` can be read as a tag. -/
theorem TagWord.tagLine {t : Tag} (h : TagWord t) : TagLine t := by
  obtain ⟨name, hname⟩ := List.head?_eq_some_iff.mp h.at_front
  have hbare : t.bare.toList = t.name.toList.tail := by
    rw [Tag.bare, String.toList_ofList]
  refine ⟨String.toList_inj.mp ?_, hbare ▸ h.ne_nil, ?_⟩
  · rw [String.toList_append, hbare, hname]
    rfl
  · rw [hbare]
    exact fun c hc => not_blank_of_alphanum (h.inside c hc)

/-- A canonical cell can be read as it is. -/
theorem Cell.cellText {s : String} (h : Cell s) : CellText s.toList :=
  ⟨h.trimmed, no_feed h.no_control, h.no_bar⟩

/-- A canonical table can be read as it is. -/
theorem Table.argumentText {rows : List Row} (h : Table rows) :
    ArgumentText (.table rows) := by
  obtain ⟨width, -, hwidth⟩ := h.width
  exact ⟨h.ne_nil, ⟨width, hwidth⟩, fun row hrow c hc =>
    (h.cells row hrow c hc).cellText⟩

/-- A keyword is found before any other word of its line. -/
theorem fits_stepKeyword {k : String} (h : k ∈ stepKeywords false)
    (t : List Char) : Fits Dialect.english.stepWords (k.toList ++ t) k := by
  have hcases : k = "Given " ∨ k = "When " ∨ k = "Then " ∨ k = "And "
      ∨ k = "But " ∨ k = "* " := by
    simpa [stepKeywords] using h
  -- The words differ before the unknown rest of the line is reached.
  rcases hcases with rfl | rfl | rfl | rfl | rfl | rfl <;> rfl

/-- A canonical step can be read as it is. -/
theorem Line.stepText {first : Bool} {s : Step} (h : Line first s) :
    StepText .english first s := by
  have hspelled : ∀ k ∈ stepKeywords false,
      k.toList = trimEnd k.toList ++ [' '] := by
    decide
  have hopening : ∀ k ∈ stepKeywords true,
      k ∈ Dialect.english.openingWords := by
    decide
  have hmem : s.keyword ∈ stepKeywords false := by
    have hsub : stepKeywords first ⊆ stepKeywords false := by
      cases first <;> decide
    exact hsub h.keyword
  refine ⟨⟨s.keyword, ?_, Or.inl (hspelled _ hmem), ?_⟩, h.text.settled,
    h.text.ne_nil, fun a ha => ?_⟩
  · rw [String.toList_append]
    exact fits_stepKeyword hmem _
  · rintro rfl
    exact hopening _ h.keyword
  · have hargument := h.argument a ha
    cases a with
    | table rows => exact Table.argumentText hargument
    | docString content => exact hargument.quotedText

/-- Canonical steps can be read as a section. -/
theorem Steps.sectionText {name : String} {ss : List Step} (h : Steps ss)
    (hname : name = "" ∨ Phrase name) : SectionText .english name ss := by
  have hsteps : StepsText .english ss :=
    ⟨fun s hs => (h.first s hs).stepText, fun s hs => (h.later s hs).stepText⟩
  rcases hname with rfl | hname
  · exact ⟨settled_nil, hsteps⟩
  · exact ⟨hname.settled, hsteps⟩

/-- A canonical background can be read as it is. -/
theorem Shared.backgroundText {b : Background} (h : Shared b) :
    BackgroundText .english b := by
  refine ⟨?_, h.steps.sectionText h.name⟩
  rw [h.keyword]
  rfl

/-- So can a canonical scenario, and an outline. -/
theorem Single.scenarioText {s : Scenario} (h : Single s) :
    ScenarioText .english s := by
  refine ⟨?_, fun t ht => (h.tags t ht).tagLine,
    h.steps.sectionText (Or.inr h.name), fun e he =>
      ⟨(h.block e he).argumentText, by decide, Or.inl h.steps.ne_nil⟩⟩
  rcases h.keyword with hk | hk
  · exact Or.inl (hk ▸ rfl)
  · exact Or.inr (hk ▸ rfl)

end Canonical

/-- **A canonical feature can be read as it is.** -/
theorem Feature.Canonical.featureText {f : Feature} (h : f.Canonical) :
    FeatureText .english f where
  name := h.name.settled
  tags t ht := (h.tags t ht).tagLine
  order := h.order
  background b hb := (h.background b hb).backgroundText
  scenarios s hs := (h.scenarios s hs).scenarioText

/-- The text of a feature of the dialect `en` is read as the feature shown
in it. -/
theorem Feature.read_render_of_text {f : Feature}
    (h : FeatureText .english f) :
    Feature.read .english f.render = .ok f.shown := by
  have hd := Dialect.clear_of_mem_all .english (by simp [Dialect.all])
  have hword : Fits Dialect.english.feature "Feature".toList "Feature" :=
    fits_head rfl
  have hread := Feature.read_renderAs_of_text hd h hword
  rwa [f.renderAs_feature] at hread

/-- **A canonical feature comes back from its text**, with the example
blocks that are written.  It comes back as it is just where every outline
has one example block. -/
theorem Feature.read_render_canonical {f : Feature} (h : f.Canonical) :
    Feature.read .english f.render = .ok f.shown
      ∧ (Feature.read .english f.render = .ok f
        ↔ ∀ s ∈ f.scenarios, ∀ es ∈ s.examples, es.length = 1) := by
  have hread := Feature.read_render_of_text h.featureText
  refine ⟨hread, ?_⟩
  rw [hread, Except.ok.injEq]
  exact f.shown_eq_self_iff

/-! ## An outline with two example blocks -/

namespace Canonical

/-- Letters and digits may stand in a cell, and in a name. -/
theorem cell_of_alphanum {s : String}
    (h : s.toList.all Char.isAlphanum = true) : Cell s := by
  have hall : ∀ c ∈ s.toList, c.isAlphanum = true := List.all_eq_true.mp h
  have hblank : s.toList.all (fun c => !isBlank c) = true :=
    List.all_eq_true.mpr fun c hc => by
      simp [(not_blank_of_alphanum (Or.inl (hall c hc))).1]
  refine ⟨trimmed_of_all hblank, fun c hc => ?_,
    fun hc => absurd (hall _ hc) (by decide),
    fun hc => absurd (hall _ hc) (by decide)⟩
  have hrange := alphanum_toNat (hall c hc)
  simp only [isControl, Bool.or_eq_false_iff, Bool.and_eq_false_iff,
    decide_eq_false_iff_not]
  omega

/-- A word of letters and digits is a phrase. -/
theorem phrase_of_alphanum {s : String} (hne : s.toList ≠ [])
    (h : s.toList.all Char.isAlphanum = true) : Phrase s := by
  have hcell := cell_of_alphanum h
  refine ⟨hne, hcell.no_control, hcell.trimmed, fun hc => ?_⟩
  have hhash := List.all_eq_true.mp h '#' (List.mem_of_mem_head? hc)
  exact absurd hhash (by decide)

/-- A feature with a background without a name, a doc string, and an
outline with two example blocks, the second of which is not written. -/
def sample : Feature where
  name := "Sums"
  tags := [⟨"@all"⟩]
  children := [
    .background ⟨"Background", "",
      [⟨"Given ", "zero", some (.docString "  a\n\nb")⟩]⟩,
    .scenario ⟨"Scenario Outline", "Any", [⟨"@a-1"⟩],
      [⟨"When ", "added", none⟩, ⟨"* ", "shown", none⟩],
      some [⟨⟨["n"]⟩, [⟨["1"]⟩]⟩, ⟨⟨["n"]⟩, [⟨["2"]⟩]⟩]⟩]

/-- The background of the sample is canonical. -/
theorem sample_background : ∀ b ∈ sample.background?, Shared b := by
  have hdoc : DocText "  a\n\nb".toList := by
    refine ⟨by simp, by decide, by decide, fun c hc h => ?_⟩
    have hb := h ['b'] (by decide) (by decide)
    obtain rfl : 'b' = c := by simpa using hb
    revert hc
    decide
  have hline : Line true
      ⟨"Given ", "zero", some (.docString "  a\n\nb")⟩ := by
    refine ⟨by decide, phrase_of_alphanum (by decide) rfl, fun a ha => ?_⟩
    obtain rfl := Option.some.inj ha
    exact hdoc
  intro b hb
  obtain rfl := Option.some.inj hb
  refine ⟨rfl, Or.inl rfl, ⟨by simp, fun s hs => ?_, by simp⟩⟩
  obtain rfl := Option.some.inj hs
  exact hline

/-- Its scenarios are canonical. -/
theorem sample_scenarios : ∀ s ∈ sample.scenarios, Single s := by
  have htag : TagWord ⟨"@a-1"⟩ := by
    refine ⟨by decide, by decide, ?_⟩
    simp
  have htable : Table [⟨["n"]⟩, ⟨["1"]⟩] := by
    refine ⟨by simp, ⟨1, by decide, by simp⟩, ?_⟩
    simp [cell_of_alphanum]
  have hline : ∀ keyword text first, keyword ∈ stepKeywords first →
      text.toList ≠ [] → text.toList.all Char.isAlphanum = true →
      Line first ⟨keyword, text, none⟩ := fun _ _ _ hkeyword hne h =>
    ⟨hkeyword, phrase_of_alphanum hne h, by simp⟩
  have hsteps : Steps [⟨"When ", "added", none⟩, ⟨"* ", "shown", none⟩] := by
    refine ⟨by simp, fun s hs => ?_, fun s hs => ?_⟩
    · obtain rfl := Option.some.inj hs
      exact hline _ _ _ (by decide) (by decide) rfl
    · obtain rfl := List.mem_singleton.mp hs
      exact hline _ _ _ (by decide) (by decide) rfl
  intro s hs
  obtain rfl := List.mem_singleton.mp hs
  refine ⟨Or.inr rfl, phrase_of_alphanum (by decide) rfl, fun t ht => ?_,
    hsteps, fun e he => ?_⟩
  · obtain rfl := List.mem_singleton.mp ht
    exact htag
  · obtain rfl := Option.some.inj he
    exact htable

/-- So the sample is. -/
theorem sample_canonical : sample.Canonical where
  name := phrase_of_alphanum (by decide) rfl
  tags := by
    intro t ht
    obtain rfl := List.mem_singleton.mp ht
    refine ⟨by decide, by decide, ?_⟩
    simp
  order := rfl
  ne_nil := by simp [sample, Feature.scenarios, Child.scenario?]
  background := sample_background
  scenarios := sample_scenarios

end Canonical

/-- The outline is read with its first example block and not with its
second. -/
theorem Feature.read_render_canonical_blocks :
    Canonical.sample.Canonical
      ∧ Feature.read .english Canonical.sample.render
        = .ok Canonical.sample.shown
      ∧ Feature.read .english Canonical.sample.render
        ≠ .ok Canonical.sample := by
  have hround := Feature.read_render_canonical Canonical.sample_canonical
  refine ⟨Canonical.sample_canonical, hround.1, fun hsame => ?_⟩
  have hone := hround.2.mp hsame
  revert hone
  simp [Canonical.sample, Feature.scenarios, Child.scenario?]

end SoloScenario
