import SoloScenario.Feature.Render
import SoloScenario.Proofs.Grammar.Sections

/-!
# Reading scenarios back

Words for scenarios, outlines and example sections may start with one
another; only the colon behind the whole word tells them apart.

* `Scenario.written` — what a scenario's lines say;
* `Scenario.shown` — the scenario that this makes, which can differ from
  the one written in its example blocks only (`shown_eq_iff`);
* `takes_scenario`, `takes_scenarios` — what is written is read off the
  lines of one scenario, and of all.
-/

namespace SoloScenario

/-- The name of a tag without its `@`. -/
def Tag.bare (t : Tag) : String :=
  String.ofList t.name.toList.tail

namespace Scenario

/-- The example block that is written. -/
def block? (s : Scenario) : Option ExampleBlock :=
  s.examples.bind List.head?

/-- What the lines of a scenario say. -/
def written (s : Scenario) : Document.Scenario :=
  ⟨s.keyword, s.name, s.tags.map Tag.bare, s.steps,
    s.block?.toList.map fun e => ⟨some (e.header :: e.body)⟩⟩

/-- A scenario with the one example block that is written, and a plain
one where there is none. -/
def shown (s : Scenario) : Scenario :=
  { s with examples := s.block?.map fun e => [e] }

/-- Nothing is lost but example blocks that are not written. -/
theorem shown_eq_iff (s : Scenario) :
    s.shown = s ↔ ∀ es ∈ s.examples, es.length = 1 := by
  obtain ⟨keyword, name, ts, ss, _ | _ | ⟨e, _ | ⟨e', es⟩⟩⟩ := s <;>
    simp [shown, block?]

end Scenario

namespace Grammar

open Reader Text

/-! ## Tags of a tree -/

/-- A tag that is read back as it is. -/
structure TagLine (t : Tag) : Prop where
  at_front : t.name = "@" ++ t.bare
  text : TagText t.bare.toList

/-- The name that is read from a tag makes the tag again. -/
theorem TagLine.ofName_bare {t : Tag} (h : TagLine t) :
    Tag.ofName t.bare = t := by
  have hhead : t.bare.toList.head? ≠ some '@' := fun hat =>
    (h.text.inside '@' (List.mem_of_mem_head? hat)).2 rfl
  rw [Tag.ofName, if_neg hhead, ← h.at_front]

section TagLines

variable {ts : List Tag} (h : ∀ t ∈ ts, TagLine t)
include h

/-- The lines of tags are made of their names. -/
theorem tagLines_bare : tagLines (ts.map Tag.bare) = ts.map Tag.name := by
  rw [tagLines, List.map_map]
  exact List.map_congr_left fun t ht => (h t ht).at_front.symm

/-- The names that are read make the tags again. -/
theorem map_ofName_bare : (ts.map Tag.bare).map Tag.ofName = ts := by
  rw [List.map_map]
  exact (List.map_congr_left fun t ht => (h t ht).ofName_bare).trans
    (List.map_id ts)

/-- Each of them can be read. -/
theorem tagText_bare : ∀ n ∈ ts.map Tag.bare, TagText n.toList := by
  intro n hn
  obtain ⟨t, ht, rfl⟩ := List.mem_map.mp hn
  exact (h t ht).text

end TagLines

/-! ## One scenario -/

/-- An example block that is read back as it is below these steps: the
dialect has the word that it is written with, and where there are no steps
that word ends the description. -/
structure BlockText (d : Dialect) (steps : List Step) (e : ExampleBlock) :
    Prop where
  table : ArgumentText (.table (e.header :: e.body))
  sheet : "Examples" ∈ d.examples
  ends : steps ≠ [] ∨ ∃ w ∈ d.scenarioStops, w.toList <+: "Examples".toList

/-- A scenario whose lines are read back as they are. -/
structure ScenarioText (d : Dialect) (s : Scenario) : Prop where
  keyword : Fits d.scenario s.keyword.toList s.keyword
    ∨ Fits d.outline s.keyword.toList s.keyword
  tags : ∀ t ∈ s.tags, TagLine t
  body : SectionText d s.name s.steps
  block : ∀ e ∈ s.block?, BlockText d s.steps e

/-- What follows a scenario. -/
structure BehindScenario (d : Dialect) (r : List Char) : Prop where
  steps : BehindSteps d r
  ends : Ends d.scenarioStops r
  no_examples : Declines (examples d) r

/-- The lines of a scenario's example block, if it has one, and what
follows. -/
def blockText (s : Scenario) (r : List Char) : List Char :=
  textOf ((s.block?.map ExampleBlock.lines).getD []) ++ r

/-- The lines of a scenario below its tags, and what follows. -/
def bodyText (s : Scenario) (r : List Char) : List Char :=
  textOf (headingLine s.keyword s.name :: s.steps.flatMap Step.lines)
    ++ blockText s r

/-- Behind its tags a scenario has its heading, its steps and its examples. -/
theorem bodyText_eq (s : Scenario) (r : List Char) : bodyText s r
    = (headingLine s.keyword s.name).toList ++ '\n' ::
      (textOf (s.steps.flatMap Step.lines) ++ blockText s r) := by
  simp [bodyText]

/-- Below the tags stands the word for the scenario. -/
theorem bodyText_front (s : Scenario) (r : List Char) :
    ∃ t, bodyText s r = s.keyword.toList ++ ':' :: t := by
  rw [bodyText_eq, headingLine_toList]
  exact ⟨_, rfl⟩

namespace ScenarioText

variable {d : Dialect} {s : Scenario} (h : ScenarioText d s)
include h

/-- The keyword is a word for scenarios. -/
theorem keyword_mem : s.keyword ∈ d.scenarioWords := by
  rcases h.keyword with hk | hk
  · exact List.mem_append_left _ hk.mem
  · exact List.mem_append_right _ hk.mem

/-- What the lines say is what is shown. -/
theorem inherit_written : s.written.inherit [] [] = s.shown := by
  have htags : s.written.tags.map Tag.ofName = s.tags :=
    map_ofName_bare h.tags
  rw [Document.Scenario.inherit, htags]
  cases hb : s.block? <;>
    simp [Scenario.written, Scenario.shown, hb, Document.Examples.toBlock]

/-- A scenario is written as its tags and its body. -/
theorem textOf_lines (r : List Char) : textOf s.lines ++ r
    = textOf (tagLines (s.tags.map Tag.bare)) ++ bodyText s r := by
  rw [tagLines_bare h.tags, bodyText, blockText]
  simp [Scenario.lines, Scenario.block?]

variable (hd : d.Clear)
include hd

/-- The keyword is a text on one line. -/
theorem keyword_word : WordText s.keyword.toList :=
  hd.scenario_words _ h.keyword_mem

/-- No gap stands in front of the body. -/
theorem flush_body (r : List Char) : Flush (bodyText s r) := by
  obtain ⟨t, ht⟩ := bodyText_front s r
  rw [ht]
  exact ((h.keyword_word hd).apart _).flush

/-- Nor does another tag. -/
theorem no_at (r : List Char) : ∀ c ∈ (bodyText s r).head?, c ≠ '@' := by
  obtain ⟨t, ht⟩ := bodyText_front s r
  rw [ht]
  exact (h.keyword_word hd).no_at _

/-- The heading is none with a word that scenarios do not have. -/
theorem declines_other {words : List String}
    (hwords : ∀ w ∈ words, WordText w.toList) (hother : s.keyword ∉ words)
    (r : List Char) : Declines (heading words) (bodyText s r) := by
  rw [bodyText_eq]
  exact declines_headingLine hwords (h.keyword_word hd) hother _ _

/-- What a scenario starts with, a tag or a word, is no word for steps and
no background, and ends a description. -/
theorem front (r : List Char) : Apart (textOf s.lines ++ r)
    ∧ NoWord d.stepWords (textOf s.lines ++ r)
    ∧ Declines (heading d.background) (textOf s.lines ++ r)
    ∧ ∀ stops, d.scenarioWords ⊆ stops → Ends stops (textOf s.lines ++ r) := by
  have hstep : ∀ w ∈ d.stepWords, WordText w.toList := fun _ => hd.step
  rw [h.textOf_lines]
  cases hts : s.tags.map Tag.bare with
  | nil =>
      obtain ⟨t, ht⟩ := bodyText_front s r
      have hother := hd.scenario_background _ h.keyword_mem
      have hbackground := h.declines_other hd hd.background_words hother r
      show Apart (bodyText s r) ∧ NoWord d.stepWords (bodyText s r)
        ∧ Declines (heading d.background) (bodyText s r)
        ∧ ∀ stops, d.scenarioWords ⊆ stops → Ends stops (bodyText s r)
      rw [ht] at hbackground ⊢
      refine ⟨(h.keyword_word hd).apart _, ?_, hbackground, ?_⟩
      · exact (noWord_stop hd.step_no_colon _ _).mpr
          (hd.scenario_step _ h.keyword_mem)
      · intro stops hstops
        exact Or.inr ⟨s.keyword, List.mem_cons_of_mem _
          (hstops h.keyword_mem), List.prefix_append _ _⟩
  | cons n ns =>
      rw [textOf_tagLines_cons]
      refine ⟨⟨flush_cons (by decide) _, forall_head (by decide) _,
        forall_head (by decide) _⟩, noWord_at hstep _, ?_, ?_⟩
      · exact declines_heading (flush_cons (by decide) _)
          (noWord_at hd.background_words _)
      · intro stops _
        exact Or.inr ⟨"@", List.mem_cons_self, _, rfl⟩

/-- A scenario ends the one before it. -/
theorem behindScenario (r : List Char) :
    BehindScenario d (textOf s.lines ++ r) := by
  obtain ⟨hapart, hstep, -, hends⟩ := h.front hd r
  refine ⟨⟨hapart, hstep⟩, hends _ (List.subset_append_left _ _), ?_⟩
  have hother := hd.scenario_examples _ h.keyword_mem
  rw [h.textOf_lines]
  exact declines_examples (tagText_bare h.tags) (h.flush_body hd r)
    (h.no_at hd r) (h.declines_other hd hd.examples_words hother r)

/-- The example block, if there is one, comes back behind the steps. -/
theorem takes_block {r : List Char} (hr : BehindScenario d r) :
    BehindSteps d (blockText s r)
      ∧ (s.steps ≠ [] ∨ Ends d.scenarioStops (blockText s r))
      ∧ Takes (many (examples d)) (blockText s r) s.written.examples r := by
  cases hb : s.block? with
  | none =>
      have htext : blockText s r = r := by simp [blockText, hb]
      have hnone : s.written.examples = [] := by simp [Scenario.written, hb]
      rw [htext, hnone]
      exact ⟨hr.steps, Or.inr hr.ends, hr.no_examples.many⟩
  | some e =>
      have he := h.block e hb
      have htext : blockText s r = textOf e.lines ++ r := by
        simp [blockText, hb]
      have hone : s.written.examples = [⟨some (e.header :: e.body)⟩] := by
        simp [Scenario.written, hb]
      have htakes := takes_examples hd he.sheet he.table hr.steps.apart
      have hlt : r.length < (textOf e.lines ++ r).length := by
        simp [ExampleBlock.lines]
        omega
      have hmany := htakes.many hlt hr.no_examples.many
      rw [htext, hone]
      refine ⟨?_, ?_, hmany⟩
      · rw [examples_toList]
        exact ⟨(hd.examples_words _ he.sheet).apart _,
          (noWord_stop hd.step_no_colon _ _).mpr (hd.sheet he.sheet).2⟩
      · refine he.ends.imp_right ?_
        rintro ⟨w, hw, hprefix⟩
        rw [examples_toList]
        exact Or.inr ⟨w, List.mem_cons_of_mem _ hw,
          hprefix.trans (List.prefix_append _ _)⟩

/-- Under the words that its keyword is one of, a scenario is read with
its tags, its steps and its example block. -/
theorem takes_with {words : List String} {r : List Char}
    (hr : BehindScenario d r) (hwords : ∀ w ∈ words, WordText w.toList)
    (hw : Fits words s.keyword.toList s.keyword) :
    Takes (scenarioWith d words) (textOf s.lines ++ r) s.written r := by
  obtain ⟨hbehind, hends, hblock⟩ := h.takes_block hd hr
  obtain ⟨mid, hheading, hdescription, hsteps⟩ :=
    h.body.takes hd hbehind hends hwords hw
  rw [h.textOf_lines]
  exact takes_tagged (tagText_bare h.tags) (h.flush_body hd r)
    (h.no_at hd r) hheading <|
    hdescription.bind <| hsteps.bind <| hblock.bind (takes_give _ r)

/-- An outline is no plain scenario. -/
theorem declines_plain (hk : s.keyword ∈ d.outline) (r : List Char) :
    Declines (scenarioWith d d.scenario) (textOf s.lines ++ r) := by
  have hwords : ∀ w ∈ d.scenario, WordText w.toList := fun w hw =>
    hd.scenario_words w (List.mem_append_left _ hw)
  have hheading := h.declines_other hd hwords (hd.outline_scenario _ hk) r
  rw [h.textOf_lines]
  exact declines_tagged (tagText_bare h.tags) (h.flush_body hd r)
    (h.no_at hd r) hheading

end ScenarioText

section Scenarios

variable {d : Dialect} (hd : d.Clear)
include hd

/-- **A scenario or an outline comes back as it is written.** -/
theorem takes_scenario {s : Scenario} (h : ScenarioText d s) {r : List Char}
    (hr : BehindScenario d r) :
    Takes (scenario d) (textOf s.lines ++ r) s.written r := by
  have hwords := hd.scenario_words
  rcases h.keyword with hk | hk
  · exact (h.takes_with hd hr (fun w hw =>
      hwords w (List.mem_append_left _ hw)) hk).orElse
  · -- The words for plain scenarios are tried first.
    exact (h.declines_plain hd hk.mem r).orElse (h.takes_with hd hr
      (fun w hw => hwords w (List.mem_append_right _ hw)) hk)

/-! ## All scenarios -/

/-- There is no scenario at the end of the text. -/
theorem declines_scenario_nil : Declines (scenario d) [] := by
  have hwith : ∀ words, words ⊆ d.scenarioWords →
      Declines (scenarioWith d words) [] := by
    intro words hwords
    have hno := noWord_nil fun w hw => hd.scenario_words w (hwords hw)
    exact @declines_tagged _ [] words [] _ (by simp) flush_nil (by simp)
      (declines_heading flush_nil hno)
  exact (hwith _ (List.subset_append_left _ _)).orElse_declines
    (hwith _ (List.subset_append_right _ _))

/-- The end of the text ends the scenario before it. -/
theorem behindScenario_nil : BehindScenario d [] := by
  have hno : NoWord d.stepWords [] := noWord_nil fun _ => hd.step
  exact ⟨⟨⟨flush_nil, by simp, by simp⟩, hno⟩, Or.inl rfl,
    @declines_examples _ [] (by simp) [] flush_nil (by simp)
      (declines_heading flush_nil (noWord_nil hd.examples_words))⟩

/-- Scenarios, or the end of the text, end the scenario before them. -/
theorem behind_scenarios {ss : List Scenario}
    (h : ∀ s ∈ ss, ScenarioText d s) :
    BehindScenario d (textOf (ss.flatMap Scenario.lines)) := by
  cases ss with
  | nil => exact behindScenario_nil hd
  | cons s ss =>
      rw [List.flatMap_cons, textOf_append]
      exact (h s List.mem_cons_self).behindScenario hd _

/-- **Later scenarios come back one after the other.** -/
theorem takes_laterScenarios {ss : List Scenario}
    (h : ∀ s ∈ ss, ScenarioText d s) :
    Takes (many (do skip skipSpaces; scenario d))
      (textOf (ss.flatMap Scenario.lines)) (ss.map Scenario.written) [] := by
  have hend : Declines (do skip skipSpaces; scenario d) [] :=
    (takes_skip rfl).bind_declines (declines_scenario_nil hd)
  refine takes_many (w := fun ss => textOf (ss.flatMap Scenario.lines)) hend
    (fun s ss h => ?_) (fun s ss => ?_) h
  · have hss : ∀ s ∈ ss, ScenarioText d s := fun s hs =>
      h s (List.mem_cons_of_mem _ hs)
    have hs := h s List.mem_cons_self
    have hflush := (hs.front hd (textOf (ss.flatMap Scenario.lines))).1.flush
    rw [List.flatMap_cons, textOf_append]
    exact (takes_skip hflush.skipSpaces).bind
      (takes_scenario hd hs (behind_scenarios hd hss))
  · simp only [List.flatMap_cons, Scenario.lines, textOf_append, textOf_cons,
      List.length_append, List.length_cons]
    omega

/-- **All scenarios come back as they are written.** -/
theorem takes_scenarios {ss : List Scenario}
    (h : ∀ s ∈ ss, ScenarioText d s) :
    Takes (scenarios d) (textOf (ss.flatMap Scenario.lines))
      (ss.map Scenario.written) [] := by
  have hflush := (behind_scenarios hd h).steps.apart.flush
  refine (takes_skip hflush.skipSpaces).bind ?_
  cases ss with
  | nil => exact (declines_scenario_nil hd).chain
  | cons s ss =>
      have hss : ∀ s ∈ ss, ScenarioText d s := fun s hs =>
        h s (List.mem_cons_of_mem _ hs)
      have htakes := takes_scenario hd (h s List.mem_cons_self)
        (behind_scenarios hd hss)
      rw [List.flatMap_cons, textOf_append]
      exact htakes.chain (takes_laterScenarios hd hss)

end Scenarios

end Grammar

end SoloScenario
