import Mathlib
import SoloScenario.Proofs.Document.Inheritance
import SoloScenario.Proofs.Grammar.Documents
import SoloScenario.Proofs.Grammar.ReadBack
import SoloScenario.Proofs.Grammar.Remainders

/-!
# Parts of a document come back in its dialect

The parts that a document is split into are written as feature files
again.  Under a word for features of the document's own dialect such a
file is read as the part, unless writing has lost something that the
grammar goes by (`Feature.Reprintable`):

* a step whose text is empty, or whose keyword another word of the dialect
  now runs ahead of;
* a doc string that shows a fence of quotes, keeps a margin, or has a
  carriage return at the end of a line;
* example blocks in a dialect without the word that they are written with.

`read_renderAs_split` is the guarantee for all texts in which no language
line names another dialect (`named?_eq_none` says of many that they have
none), and `read_render_fenced` a text whose part does not come back.
-/

namespace SoloScenario

open Grammar Text

/-! ## Texts without a language line -/

/-- The dialect that a text names in a language line. -/
def Document.named? (text : String) : Option Dialect :=
  (languageLine (skipSpaces (withFinalBreak text.toList))).outcome.map
    Prod.fst

/-- A text in which `#` and `language` stand nowhere with at most spaces in
between names no dialect. -/
theorem Document.named?_eq_none {text : String}
    (h : ∀ gap, (∀ c ∈ gap, isSpace c = true) →
      ¬ '#' :: (gap ++ "language".toList) <:+: text.toList) :
    Document.named? text = none := by
  cases hout : (languageLine
      (skipSpaces (withFinalBreak text.toList))).outcome with
  | none => rw [Document.named?, hout]; rfl
  | some x =>
      have hyields : Yields languageLine
          (skipSpaces (withFinalBreak text.toList)) x.1 x.2 := hout
      obtain ⟨_, r₁, hblank, hrest⟩ := hyields.bind
      obtain ⟨_, r₂, hhash, hrest⟩ := hrest.bind
      obtain ⟨_, r₃, hskip, hrest⟩ := hrest.bind
      obtain ⟨_, r₄, hword, -⟩ := hrest.bind
      have hgap : ∀ c ∈ r₂.takeWhile isSpace, isSpace c = true :=
        List.all_eq_true.mp List.all_takeWhile
      have hsplit : r₂ = r₂.takeWhile isSpace ++ ("language".toList ++ r₄) := by
        rw [← hword.literal, hskip.skip, skipSpaces,
          List.takeWhile_append_dropWhile]
      have hfront : '#' :: (r₂.takeWhile isSpace ++ "language".toList)
          <+: r₁ := by
        refine ⟨r₄, ?_⟩
        rw [hhash.literal]
        conv_rhs => rw [hsplit]
        simp
      have hbehind : r₁ <:+ withFinalBreak text.toList := by
        rw [hblank.skip]
        exact (exhaust_suffix atBlank?_suffix _).trans
          (List.dropWhile_suffix _)
      have hinfix := hfront.isInfix.trans hbehind.isInfix
      refine absurd ?_ (h _ hgap)
      rw [withFinalBreak] at hinfix
      split at hinfix
      · exact hinfix
      · refine infix_of_append_newline hinfix (by simp) ?_
        rw [← List.cons_append, List.getLast?_append]
        simp

/-- What a text without a language line is read as is known. -/
theorem Document.readDocument_of_read {d : Dialect} (hd : d.Clear)
    {text : String} (hnamed : Document.named? text = none) {doc : Document}
    (h : Document.read d text = .ok doc) : ReadDocument d doc := by
  obtain ⟨r, hyields⟩ : ∃ r, Yields (document d)
      (withFinalBreak text.toList) doc r := by
    simp only [Document.read] at h
    cases hout : (document d (withFinalBreak text.toList)).outcome with
    | none => simp [hout] at h
    | some x =>
        simp only [hout] at h
        split at h
        · exact ⟨x.2, by rw [Yields, hout, ← Except.ok.inj h]⟩
        · simp at h
  obtain ⟨_, r₁, hskip, hrest⟩ := hyields.bind
  obtain ⟨o, r₂, hlanguage, hbody⟩ := hrest.bind
  have hr := hskip.skip
  subst hr
  rcases hlanguage.optional with ⟨d', rfl, hd'⟩ | ⟨rfl, -⟩
  · rw [Yields] at hd'
    simp [Document.named?, hd'] at hnamed
  · exact hbody.body hd

/-! ## What writing must not lose -/

/-- A step that is read back as it is written: its text is not empty, the
first word that its line starts with is that of its keyword, up to blanks,
and its doc string can stand between quotes. -/
structure Step.Reprintable (d : Dialect) (s : Step) : Prop where
  text : s.text ≠ ""
  keyword : ∃ w, Fits d.stepWords (s.keyword ++ s.text).toList w
    ∧ trimEnd w.toList = trimEnd s.keyword.toList
  docString : ∀ content, s.argument = some (.docString content) →
    Quotable content.toList

/-- A feature of which writing loses nothing that the grammar goes by.  An
example block is written under the word `Examples`, so the dialect must
have that word, and where the block stands below no steps the word must
end the description. -/
structure Feature.Reprintable (d : Dialect) (f : Feature) : Prop where
  steps : ∀ s ∈ f.runs, s.Reprintable d
  sheet : ∀ s ∈ f.scenarios, s.block?.isSome → "Examples" ∈ d.examples
  ends : ∀ s ∈ f.scenarios, s.block?.isSome → s.steps = [] →
    ∃ w ∈ d.scenarioStops, w.toList <+: "Examples".toList

/-! ## What is known of a part -/

namespace Grammar

/-- A scenario of the tree as far as reading alone decides what it
holds. -/
structure ReadVariant (d : Dialect) (s : Scenario) : Prop where
  keyword : Fits d.scenario s.keyword.toList s.keyword
    ∨ Fits d.outline s.keyword.toList s.keyword
  name : Settled s.name.toList
  tags : ∀ t ∈ s.tags, TagLine t
  steps : ReadSteps d s.steps
  blocks : ∀ e ∈ s.examples.getD [],
    ArgumentText (.table (e.header :: e.body))

/-- A name that is read from a tag makes a tag that can be read. -/
theorem tagLine_ofName {n : String} (h : TagText n.toList) :
    TagLine (Tag.ofName n) := by
  have hhead : n.toList.head? ≠ some '@' := fun hat =>
    (h.inside '@' (List.mem_of_mem_head? hat)).2 rfl
  have hbare : (Tag.mk ("@" ++ n)).bare = n := by
    simp [Tag.bare]
  rw [Tag.ofName, if_neg hhead]
  exact ⟨by rw [hbare], by rwa [hbare]⟩

/-- So do all names of a line. -/
theorem tagLine_map_ofName {names : List String}
    (h : ∀ n ∈ names, TagText n.toList) :
    ∀ t ∈ names.map Tag.ofName, TagLine t := by
  intro t ht
  obtain ⟨n, hn, rfl⟩ := List.mem_map.mp ht
  exact tagLine_ofName (h n hn)

/-- Any step may be a later one. -/
theorem ReadStep.later {d : Dialect} {first : Bool} {s : Step}
    (h : ReadStep d first s) : ReadStep d false s := by
  obtain ⟨w, hw, hspelled, -⟩ := h.keyword
  exact ⟨⟨w, hw, hspelled, by simp⟩, h.text, h.argument⟩

/-- All steps of a section may be later ones. -/
theorem ReadSteps.all {d : Dialect} {ss : List Step} (h : ReadSteps d ss) :
    ∀ s ∈ ss, ReadStep d false s := by
  cases ss with
  | nil => simp
  | cons s ss =>
      exact List.forall_mem_cons.mpr ⟨(h.first s rfl).later, h.later⟩

/-- Steps that are handed down go in front. -/
theorem ReadSteps.append {d : Dialect} {ss ts : List Step}
    (hs : ReadSteps d ss) (ht : ReadSteps d ts) : ReadSteps d (ss ++ ts) := by
  cases ss with
  | nil => exact ht
  | cons s ss =>
      exact ⟨hs.first, List.forall_mem_append.mpr ⟨hs.later, ht.all⟩⟩

/-- No steps need nothing. -/
theorem readSteps_nil (d : Dialect) : ReadSteps d [] :=
  ⟨by simp, by simp⟩

/-- The table of an example block can be read, if it has one. -/
theorem argumentText_toBlock {e : Document.Examples}
    (h : ∀ rows ∈ e.table, ArgumentText (.table rows)) :
    ArgumentText (.table (e.toBlock.header :: e.toBlock.body)) := by
  have hempty : ArgumentText (.table [⟨[]⟩]) :=
    ⟨by simp, ⟨0, by simp⟩, by simp⟩
  rcases e with ⟨_ | _ | ⟨header, body⟩⟩
  · exact hempty
  · exact hempty
  · exact h _ rfl

/-- What a scenario inherits was read as well. -/
theorem readVariant_inherit {d : Dialect} {tags : List Tag}
    {ss : List Step} {s : Document.Scenario} (h : ReadScenario d s)
    (htags : ∀ t ∈ tags, TagLine t) (hsteps : ReadSteps d ss) :
    ReadVariant d (s.inherit tags ss) where
  keyword := h.keyword
  name := h.name
  tags := List.forall_mem_append.mpr ⟨tagLine_map_ofName h.tags, htags⟩
  steps := hsteps.append h.steps
  blocks := by
    intro e he
    rw [Document.Scenario.inherit] at he
    split at he
    · simp at he
    · obtain ⟨x, hx, rfl⟩ := List.mem_map.mp he
      exact argumentText_toBlock (h.examples x hx)

/-- Every scenario of the tree, handed down or not, is what reading can give.
-/
theorem readVariant_allScenarios {d : Dialect} {doc : Document}
    (h : ReadDocument d doc) : ∀ s ∈ doc.allScenarios, ReadVariant d s := by
  intro s hs
  rcases List.mem_append.mp hs with hs | hs
  · obtain ⟨x, hx, rfl⟩ := List.mem_map.mp hs
    exact readVariant_inherit (h.scenarios x hx) (by simp) (readSteps_nil d)
  · obtain ⟨rule, hrule, hs⟩ := List.mem_flatMap.mp hs
    obtain ⟨x, hx, rfl⟩ := List.mem_map.mp hs
    have hr := h.rules rule hrule
    refine readVariant_inherit (hr.scenarios x hx)
      (tagLine_map_ofName hr.tags) ?_
    rw [Document.Rule.steps]
    cases hb : rule.background with
    | none => exact readSteps_nil d
    | some b => exact (hr.background b hb).steps

/-- A table keeps its width with fewer rows. -/
theorem argumentText_subset {header : Row} {rows body : List Row}
    (hsub : rows ⊆ body) (h : ArgumentText (.table (header :: body))) :
    ArgumentText (.table (header :: rows)) := by
  obtain ⟨-, ⟨width, hwidth⟩, hcells⟩ := h
  have hmem : header :: rows ⊆ header :: body := List.cons_subset_cons _ hsub
  exact ⟨by simp, ⟨width, fun row hrow => hwidth row (hmem hrow)⟩,
    fun row hrow => hcells row (hmem hrow)⟩

/-- A variant has rows of the scenario that it is one of. -/
theorem ReadVariant.variant {d : Dialect} {expand : Bool} {s v : Scenario}
    (h : ReadVariant d s) (hv : v ∈ s.variants expand) : ReadVariant d v := by
  rw [Scenario.variants.eq_def] at hv
  split at hv
  · next blocks hblocks =>
      obtain ⟨copy, hcopy, rfl⟩ := List.mem_map.mp hv
      refine ⟨h.keyword, h.name, h.tags, h.steps, fun e he => ?_⟩
      have hread := h.blocks
      rw [hblocks] at hread
      cases blocks with
      | nil => simp [rowBlocks] at hcopy
      | cons block later =>
          obtain ⟨row, hrow, rfl⟩ := List.mem_map.mp hcopy
          rcases List.mem_cons.mp he with rfl | he
          · have hsub : [row] ⊆ block.body := by simpa using hrow
            exact argumentText_subset hsub (hread block List.mem_cons_self)
          · exact hread e (List.mem_cons_of_mem _ he)
  · obtain rfl := List.mem_singleton.mp hv
    exact h

/-- The tags of the feature go behind those of the scenario. -/
theorem ReadVariant.tagged {d : Dialect} {s : Scenario}
    (h : ReadVariant d s) {tags : List Tag} (htags : ∀ t ∈ tags, TagLine t) :
    ReadVariant d { s with tags := s.tags ++ tags } where
  keyword := h.keyword
  name := h.name
  tags := List.forall_mem_append.mpr ⟨h.tags, htags⟩
  steps := h.steps
  blocks := h.blocks

/-- A part has the background of the document that it comes from. -/
theorem background?_of_partOf {doc : Document} {s : Scenario}
    {blocks : Option (List ExampleBlock)} {part : Feature}
    (h : PartOf doc.toFeature s blocks part) :
    part.background? = doc.background := by
  have hhead : part.backgrounds.head? = doc.background := by
    rw [h.backgrounds, Document.backgrounds_toFeature]
    simp
  rw [Feature.background?, ← List.head?_filterMap]
  exact hhead

/-! ## What was read and what writing keeps -/

section Reprintable

variable {d : Dialect} (hd : d.Clear)
include hd

/-- A step that was read is read back, whatever word of its spelling is
found this time. -/
theorem ReadStep.stepText {first : Bool} {s : Step} (h : ReadStep d first s)
    (hp : s.Reprintable d) : StepText d first s := by
  obtain ⟨v, hv, hspelled, hopening⟩ := h.keyword
  obtain ⟨w, hfits, hsame⟩ := hp.keyword
  have hidem : trimEnd (trimEnd v.toList) = trimEnd v.toList :=
    trimEnd_of_last (trimEnd_last _)
  have hbare : trimEnd w.toList = trimEnd v.toList := by
    rcases hspelled with hk | ⟨hk, -⟩
    · rw [hsame, hk, trimEnd_append_blank _ (by decide), hidem]
    · rw [hsame, hk, hidem]
  refine ⟨⟨w, hfits, ?_, fun hfirst =>
    hd.opening w hfits.mem v (hopening hfirst) hbare⟩, h.text, ?_, ?_⟩
  · rw [Spelled, hbare]
    exact hspelled
  · exact fun hnil => hp.text (String.toList_inj.mp hnil)
  · intro a ha
    have hread := h.argument a ha
    cases a with
    | table rows => exact hread
    | docString content => exact ⟨hp.docString content ha, hread⟩

/-- Steps that reading gives can be read again, if writing loses nothing of
them. -/
theorem ReadSteps.stepsText {ss : List Step} (h : ReadSteps d ss)
    (hp : ∀ s ∈ ss, s.Reprintable d) : StepsText d ss := by
  refine ⟨fun s hs => ?_, fun s hs => ?_⟩
  · exact (h.first s hs).stepText hd (hp s (List.mem_of_mem_head? hs))
  · exact (h.later s hs).stepText hd (hp s (List.mem_of_mem_tail hs))

/-- So can a scenario with such steps, if the word for its block is one of the
dialect. -/
theorem ReadVariant.scenarioText {s : Scenario} (h : ReadVariant d s)
    (hsteps : ∀ x ∈ s.steps, x.Reprintable d)
    (hsheet : s.block?.isSome → "Examples" ∈ d.examples)
    (hends : s.block?.isSome → s.steps = [] →
      ∃ w ∈ d.scenarioStops, w.toList <+: "Examples".toList) :
    ScenarioText d s := by
  refine ⟨h.keyword, h.tags, ⟨h.name, h.steps.stepsText hd hsteps⟩, ?_⟩
  intro e he
  have hsome : s.block?.isSome := Option.isSome_of_mem he
  obtain ⟨blocks, hblocks, hfirst⟩ := Option.bind_eq_some_iff.mp he
  have hread : ArgumentText (.table (e.header :: e.body)) := by
    refine h.blocks e ?_
    rw [hblocks]
    exact List.mem_of_mem_head? hfirst
  refine ⟨hread, hsheet hsome, ?_⟩
  by_cases hnil : s.steps = []
  · exact Or.inr (hends hsome hnil)
  · exact Or.inl hnil

/-- **A part of a document that was read is read back**, unless writing
has lost something. -/
theorem ReadDocument.featureText {doc : Document} (h : ReadDocument d doc)
    {expand : Bool} {part : Feature}
    (hpart : part ∈ doc.toFeature.split expand)
    (hp : part.Reprintable d) : FeatureText d part := by
  rw [split_eq_flatMap, Document.allScenarios_toFeature] at hpart
  obtain ⟨s, hs, hmem⟩ := List.mem_flatMap.mp hpart
  obtain ⟨v, hv, rfl⟩ := List.mem_map.mp hmem
  have htags := tagLine_map_ofName h.tags
  have hread : ReadVariant d { v with tags := v.tags ++ doc.toFeature.tags } :=
    ((readVariant_allScenarios h s hs).variant hv).tagged htags
  have hmade := partOf_assemble doc.toFeature v v.examples
  have hbackground := background?_of_partOf hmade
  refine ⟨h.name, htags, ?_, ?_, ?_⟩
  · rw [hbackground, hmade.scenarios, hmade.children,
      Document.backgrounds_toFeature]
    rfl
  · intro b hb
    rw [hbackground] at hb
    have hown := h.background b hb
    refine ⟨hown.keyword, hown.name, hown.steps.stepsText hd ?_⟩
    intro x hx
    refine hp.steps x (List.mem_append_left _ ?_)
    rw [hmade.backgrounds, Document.backgrounds_toFeature]
    exact List.mem_flatMap.mpr ⟨b, Option.mem_toList.mpr hb, hx⟩
  · intro x hx
    have hone := hx
    rw [hmade.scenarios] at hone
    obtain rfl := List.mem_singleton.mp hone
    refine hread.scenarioText hd ?_ (hp.sheet _ hx) (hp.ends _ hx)
    intro y hy
    exact hp.steps y (List.mem_append_right _
      (List.mem_flatMap.mpr ⟨_, hx, hy⟩))

end Reprintable

end Grammar

/-! ## From the text of a part to the part -/

/-- **Parts come back in the dialect of their document.**  A text without
a language line is read in a dialect of the table and split; a part of it,
written under a word for features that the dialect finds as it is, such as
the first of them (`fits_head`), is read in that dialect as the part
itself, with the example blocks that are written, unless writing has lost
something. -/
theorem Feature.read_renderAs_split {d : Dialect} (hd : d ∈ Dialect.all)
    {text : String} (hnamed : Document.named? text = none) {f : Feature}
    (hread : Feature.read d text = .ok f) {expand : Bool} {part : Feature}
    (hpart : part ∈ f.split expand) (hp : part.Reprintable d) {word : String}
    (hword : Fits d.feature word.toList word) :
    Feature.read d (part.renderAs word) = .ok part.shown := by
  have hclear := Dialect.clear_of_mem_all d hd
  obtain ⟨doc, hdoc, rfl⟩ : ∃ doc, Document.read d text = .ok doc
      ∧ doc.toFeature = f := by
    rw [Feature.read] at hread
    cases hdoc : Document.read d text with
    | error place => simp [hdoc, Except.map] at hread
    | ok doc => exact ⟨doc, rfl, by simpa [hdoc, Except.map] using hread⟩
  have htext := (Document.readDocument_of_read hclear hnamed hdoc).featureText
    hclear hpart hp
  exact Feature.read_renderAs_of_text hclear htext hword

namespace Reprint

/-- A text in the dialect `de`, with a rule and a doc string between
backticks. -/
def sums : String :=
  "Funktionalität: Summen\nGrundlage:\n  Angenommen null\nRegel: eins\n"
    ++ "  @klein\n  Szenario: zwei\n    Gegeben seien Zahlen\n"
    ++ "    \x60\x60\x60\n    1\n      2\n    \x60\x60\x60\n    Und mehr\n"

/-- The only part of that text. -/
def sumsPart : Feature where
  name := "Summen"
  tags := []
  children := [
    .background ⟨"Grundlage", "", [⟨"Angenommen ", "null", none⟩]⟩,
    .scenario ⟨"Szenario", "zwei", [⟨"@klein"⟩],
      [⟨"Gegeben seien ", "Zahlen", some (.docString "1\n  2")⟩,
        ⟨"Und ", "mehr", none⟩], none⟩]

/-- The doc string of the sample can stand between quotes. -/
theorem sums_quotable : Quotable "1\n  2".toList := by
  refine ⟨by decide, by decide, fun c hc h => ?_⟩
  have hone := h ['1'] (by decide) (by decide)
  obtain rfl : '1' = c := by simpa using hone
  revert hc
  decide

/-- The part of the sample can be read again. -/
theorem sums_reprintable : sumsPart.Reprintable .german := by
  refine ⟨?_, by decide, by decide⟩
  have hplain : ∀ keyword text, text ≠ "" →
      Fits Dialect.german.stepWords (keyword ++ text).toList keyword →
      Step.Reprintable .german ⟨keyword, text, none⟩ :=
    fun keyword _ htext hfits => ⟨htext, ⟨keyword, hfits, rfl⟩, by simp⟩
  have hruns : sumsPart.runs = [⟨"Angenommen ", "null", none⟩,
      ⟨"Gegeben seien ", "Zahlen", some (.docString "1\n  2")⟩,
      ⟨"Und ", "mehr", none⟩] := rfl
  rw [hruns]
  simp only [List.forall_mem_cons, List.not_mem_nil, false_implies,
    implies_true, and_true]
  refine ⟨hplain _ _ (by decide) rfl, ?_, hplain _ _ (by decide) rfl⟩
  refine ⟨by decide, ⟨"Gegeben seien ", rfl, rfl⟩, ?_⟩
  rintro content hcontent
  obtain rfl : "1\n  2" = content := by simpa using hcontent
  exact sums_quotable

end Reprint

set_option maxRecDepth 4000 in
/-- The text of the only part of a document in the dialect `de` is read in
that dialect: the rule's tag and steps have been handed down, and the doc
string stands between quotes. -/
theorem Feature.read_renderAs_split_german :
    Dialect.german ∈ Dialect.all ∧ Document.named? Reprint.sums = none
      ∧ Feature.read .german Reprint.sums = .ok Reprint.sumsPart
      ∧ Reprint.sumsPart ∈ Reprint.sumsPart.split true
      ∧ Reprint.sumsPart.Reprintable .german
      ∧ Fits Dialect.german.feature "Funktion".toList "Funktion"
      ∧ Feature.read .german (Reprint.sumsPart.renderAs "Funktion")
        = .ok Reprint.sumsPart.shown := by
  have hd : Dialect.german ∈ Dialect.all := by simp [Dialect.all]
  have hnamed : Document.named? Reprint.sums = none := by cbv
  have hread : Feature.read .german Reprint.sums = .ok Reprint.sumsPart := by
    cbv
  have hpart : Reprint.sumsPart ∈ Reprint.sumsPart.split true :=
    List.mem_singleton.mpr rfl
  have hword : Fits Dialect.german.feature "Funktion".toList "Funktion" :=
    rfl
  exact ⟨hd, hnamed, hread, hpart, Reprint.sums_reprintable, hword,
    read_renderAs_split hd hnamed hread hpart Reprint.sums_reprintable hword⟩

/-! ## A fence in a doc string -/

/-- A feature with a doc string that shows a fence of quotes; its source
had it between backticks. -/
def Reprint.fenced : Feature where
  name := "f"
  tags := []
  children := [.scenario ⟨"Scenario", "s", [],
    [⟨"Given ", "a", some (.docString "x \"\"\" y")⟩], none⟩]

/-- **Not every part comes back.**  A doc string between backticks may hold
a fence of quotes, and is written between quotes all the same, so the text
of the part is refused where that fence closes the doc string. -/
theorem Feature.read_render_fenced :
    Feature.read .english ("Feature: f\nScenario: s\nGiven a\n"
        ++ "\x60\x60\x60\nx \"\"\" y\n\x60\x60\x60\n") = .ok Reprint.fenced
      ∧ Reprint.fenced ∈ Reprint.fenced.split true
      ∧ Feature.read .english Reprint.fenced.render = .error ⟨7, 1⟩ := by
  refine ⟨by cbv, List.mem_singleton.mpr rfl, by cbv⟩

end SoloScenario
