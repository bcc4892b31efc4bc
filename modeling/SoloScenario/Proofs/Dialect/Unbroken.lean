import SoloScenario.Proofs.Dialect.Clear
import SoloScenario.Proofs.Text.Respelling

/-!
# Dialects whose words have no breaks in them

No word of the table has a carriage return or a line feed in it
(`unbroken_of_mem_all`), so that no keyword is found in one spelling of a
text and missed in another.
-/

namespace SoloScenario

namespace Dialect

/-- No word of the dialect has a break in it. -/
structure Unbroken (d : Dialect) : Prop where
  feature : AllUnbroken d.feature
  rule : AllUnbroken d.rule
  background : AllUnbroken d.background
  scenario : AllUnbroken d.scenario
  outline : AllUnbroken d.outline
  examples : AllUnbroken d.examples
  given : AllUnbroken d.givenWords
  whens : AllUnbroken d.whenWords
  thens : AllUnbroken d.thenWords
  ands : AllUnbroken d.andWords
  buts : AllUnbroken d.butWords

namespace Unbroken

variable {d : Dialect} (hd : d.Unbroken)

include hd

/-- The words for scenarios hold no line break. -/
theorem scenarioWords : AllUnbroken d.scenarioWords :=
  allUnbroken_append.mpr ⟨hd.scenario, hd.outline⟩

/-- Nor do the words for steps. -/
theorem stepWords : AllUnbroken d.stepWords := by
  simp only [Dialect.stepWords, allUnbroken_append]
  exact ⟨⟨⟨⟨hd.given, hd.whens⟩, hd.thens⟩, hd.ands⟩, hd.buts⟩

/-- Nor do the words that end the head of a feature. -/
theorem featureStops : AllUnbroken d.featureStops := by
  simp only [Dialect.featureStops, allUnbroken_append]
  exact ⟨⟨hd.background, hd.rule⟩, hd.scenarioWords⟩

/-- Nor do the words that end the head of a rule. -/
theorem ruleStops : AllUnbroken d.ruleStops :=
  allUnbroken_append.mpr ⟨hd.background, hd.scenarioWords⟩

/-- Nor do the words that end a scenario. -/
theorem scenarioStops : AllUnbroken d.scenarioStops :=
  allUnbroken_append.mpr ⟨hd.scenarioWords, hd.stepWords⟩

/-- Nor do the words that end a block of examples. -/
theorem examplesStops : AllUnbroken d.examplesStops := by
  have hbar : AllUnbroken ["|"] := by
    intro w hw
    obtain rfl := List.mem_singleton.mp hw
    decide
  exact allUnbroken_append.mpr ⟨hd.scenarioStops, hbar⟩

end Unbroken

/-- The check may be made on words that are spelled out. -/
theorem unbroken_of_spells {d : Dialect} {letters : List (List Char)}
    (hspells : Spells letters (d.headingWords ++ d.stepWords))
    (h : ∀ w ∈ letters, SoloScenario.Unbroken w) : d.Unbroken := by
  have hwords : AllUnbroken (d.headingWords ++ d.stepWords) := by
    intro w hw
    refine h _ ?_
    rw [← hspells.map_toList]
    exact mem_map_toList.mpr hw
  simp only [headingWords, Dialect.scenarioWords, Dialect.stepWords,
    allUnbroken_append] at hwords
  obtain ⟨⟨⟨⟨⟨hfeature, hrule⟩, hbackground⟩, hscenario, houtline⟩,
    hexamples⟩, ⟨⟨⟨hgiven, hwhens⟩, hthens⟩, hands⟩, hbuts⟩ := hwords
  exact ⟨hfeature, hrule, hbackground, hscenario, houtline, hexamples,
    hgiven, hwhens, hthens, hands, hbuts⟩

/-- **No word of the table has a break in it.** -/
theorem unbroken_of_mem_all : ∀ d ∈ all, d.Unbroken := by
  rw [← List.forall_iff_forall_mem]
  repeat' apply And.intro
  all_goals apply unbroken_of_spells <;>
    first | decide +kernel | repeat constructor

end Dialect

end SoloScenario
