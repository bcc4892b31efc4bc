import Mathlib.Data.List.Basic
import SoloScenario.Dialect.Table
import SoloScenario.Proofs.Grammar.Lines

/-!
# Dialects whose lines can be told apart

A line of a feature file is known by the word that it starts with, so the
words of a dialect must not run into each other (`Dialect.Clear`).  Every
dialect of the table is clear (`clear_of_mem_all`).

* `Letters`, `Letters.clear` — the words of a dialect as lists of
  characters, and the check on these;
* `Spells` — how characters and words are tied together without taking a
  word apart;
* `Clear`, `clear_of_letters` — what the check says of the words.
-/

namespace SoloScenario

open Grammar Text

/-! ## The check -/

/-- The words of a dialect, letter by letter.  `others` are those of
features and of rules. -/
structure Letters where
  others : List (List Char)
  background : List (List Char)
  scenario : List (List Char)
  outline : List (List Char)
  examples : List (List Char)
  opening : List (List Char)
  continuing : List (List Char)

namespace Letters

/-- The letters of all words for steps. -/
def steps (x : Letters) : List (List Char) :=
  x.opening ++ x.continuing

/-- The letters of all words for scenarios. -/
def scenarios (x : Letters) : List (List Char) :=
  x.scenario ++ x.outline

/-- The letters of all words for headings. -/
def headings (x : Letters) : List (List Char) :=
  x.others ++ x.background ++ x.scenarios ++ x.examples

/-- The letters of the word that example sections are written with. -/
def sheet : List Char :=
  ['E', 'x', 'a', 'm', 'p', 'l', 'e', 's']

/-- A character that a word can start with: no gap, comment, tag, table or
doc string starts with it. -/
def startsWord (c : Char) : Bool :=
  !isBlank c && !(['#', '@', '|', '"', '\x60'].contains c)

/-- Whether a word starts as a word does, and has neither a colon nor a
line feed in it. -/
def sound (w : List Char) : Bool :=
  w.head?.any startsWord && !w.contains ':' && !w.contains '\n'

/-- Whether the words can be told apart. -/
def clear (x : Letters) : Bool :=
  (x.headings ++ x.steps).all sound
    && x.steps.all (fun w => x.scenarios.all (!w.isPrefixOf ·))
    && x.scenarios.all (!x.background.contains ·)
    && x.scenarios.all (!x.examples.contains ·)
    && x.outline.all (!x.scenario.contains ·)
    && x.continuing.all (fun w => x.opening.all fun v =>
      trimEnd w != trimEnd v || x.opening.contains w)
    && x.steps.all (fun w => (w.drop (trimEnd w).length).all isSpace)
    && (!x.examples.contains sheet
      || x.examples.find? (·.isPrefixOf sheet) == some sheet
        && x.steps.all (!List.isPrefixOf · sheet))

end Letters

namespace Dialect

/-- The words that the first step of a section can start with. -/
def openingWords (d : Dialect) : List String :=
  d.givenWords ++ d.whenWords ++ d.thenWords

/-- The words that continue the step before. -/
def continuingWords (d : Dialect) : List String :=
  d.andWords ++ d.butWords

/-- The words that a heading can start with. -/
def headingWords (d : Dialect) : List String :=
  d.feature ++ d.rule ++ d.background ++ d.scenarioWords ++ d.examples

/-- The words of steps are those that open and those that continue. -/
theorem stepWords_eq (d : Dialect) :
    d.stepWords = d.openingWords ++ d.continuingWords := by
  simp [stepWords, openingWords, continuingWords]

/-- The letters of a dialect. -/
def letters (d : Dialect) : Letters where
  others := (d.feature ++ d.rule).map String.toList
  background := d.background.map String.toList
  scenario := d.scenario.map String.toList
  outline := d.outline.map String.toList
  examples := d.examples.map String.toList
  opening := d.openingWords.map String.toList
  continuing := d.continuingWords.map String.toList

end Dialect

/-- A word that a line can start with. -/
structure WordText (w : List Char) : Prop where
  head : ∃ c, w.head? = some c ∧ Letters.startsWord c = true
  no_colon : ':' ∉ w
  no_feed : '\n' ∉ w

/-- **A clear dialect**: what a line is can be seen from the word that it
starts with.

* No word for a step starts a scenario's heading, and no word for a
  scenario is one for a background or for examples as well.
* A word that continues a step is not one that opens a section in another
  spelling, with other blanks at its end.
* Where example sections can be written as they are in English, their
  heading is found, and is not taken for a step. -/
structure Dialect.Clear (d : Dialect) : Prop where
  words : ∀ w ∈ d.headingWords ++ d.stepWords, WordText w.toList
  scenario_step : ∀ k ∈ d.scenarioWords, NoWord d.stepWords k.toList
  scenario_background : ∀ k ∈ d.scenarioWords, k ∉ d.background
  scenario_examples : ∀ k ∈ d.scenarioWords, k ∉ d.examples
  outline_scenario : ∀ k ∈ d.outline, k ∉ d.scenario
  opening : ∀ w ∈ d.stepWords, ∀ v ∈ d.openingWords,
    trimEnd w.toList = trimEnd v.toList → w ∈ d.openingWords
  separator : ∀ w ∈ d.stepWords,
    ∀ c ∈ w.toList.drop (trimEnd w.toList).length, isSpace c = true
  sheet : "Examples" ∈ d.examples →
    Fits d.examples "Examples".toList "Examples"
      ∧ NoWord d.stepWords "Examples".toList

namespace Dialect

/-- A word whose letters are sound is a text on one line. -/
theorem wordText_of_sound {w : List Char} (h : Letters.sound w = true) :
    WordText w := by
  simp only [Letters.sound, Bool.and_eq_true, Option.any_eq_true,
    Bool.not_eq_true', List.contains_eq_mem, decide_eq_false_iff_not] at h
  obtain ⟨⟨hhead, hcolon⟩, hfeed⟩ := h
  exact ⟨hhead, hcolon, hfeed⟩

/-- A word is among others if its letters are among theirs. -/
theorem mem_map_toList {ws : List String} {w : String} :
    w.toList ∈ ws.map String.toList ↔ w ∈ ws :=
  List.mem_map_of_injective fun _ _ h => String.toList_inj.mp h

section Letters

variable (d : Dialect)

/-- The letters of headings are those of the heading words. -/
@[simp] theorem letters_headings :
    d.letters.headings = d.headingWords.map String.toList := by
  simp [letters, Letters.headings, Letters.scenarios, headingWords,
    scenarioWords]

/-- The letters of steps are those of the step words. -/
@[simp] theorem letters_steps :
    d.letters.steps = d.stepWords.map String.toList := by
  simp [letters, Letters.steps, stepWords_eq]

/-- The letters of scenarios are those of the scenario words. -/
@[simp] theorem letters_scenarios :
    d.letters.scenarios = d.scenarioWords.map String.toList := by
  simp [letters, Letters.scenarios, scenarioWords]

end Letters

/-- If no word's letters begin the text, no word does. -/
theorem noWord_of_letters {ws : List String} {s : List Char}
    (h : (ws.map String.toList).all (fun w => !w.isPrefixOf s) = true) :
    NoWord ws s := by
  intro w hw hprefix
  have hnot := List.all_eq_true.mp h _ (mem_map_toList.mpr hw)
  simp [List.isPrefixOf_iff_prefix.mpr hprefix] at hnot

/-- Words are apart if their letters are. -/
theorem not_mem_of_letters {ks ws : List String}
    (h : (ks.map String.toList).all
      (fun k => !(ws.map String.toList).contains k) = true) :
    ∀ k ∈ ks, k ∉ ws := by
  intro k hk hws
  have hnot := List.all_eq_true.mp h _ (mem_map_toList.mpr hk)
  have hmem := mem_map_toList.mpr hws
  simp only [List.contains_eq_mem, hmem, decide_true, Bool.not_true,
    Bool.false_eq_true] at hnot

/-- What the check says of the words. -/
theorem clear_of_letters {d : Dialect} (h : d.letters.clear = true) :
    d.Clear := by
  simp only [Letters.clear, Bool.and_eq_true, letters_headings,
    letters_steps, letters_scenarios, ← List.map_append] at h
  obtain ⟨⟨⟨⟨⟨⟨⟨hwords, hstep⟩, hbackground⟩, hexamples⟩, houtline⟩,
    hopening⟩, hseparator⟩, hsheet⟩ := h
  constructor
  case words =>
    intro w hw
    have hsound := List.all_eq_true.mp hwords _ (mem_map_toList.mpr hw)
    exact wordText_of_sound hsound
  case scenario_step =>
    intro k hk w hw hprefix
    have hall := List.all_eq_true.mp hstep _ (mem_map_toList.mpr hw)
    have hnot := List.all_eq_true.mp hall _ (mem_map_toList.mpr hk)
    simp [List.isPrefixOf_iff_prefix.mpr hprefix] at hnot
  case scenario_background => exact not_mem_of_letters hbackground
  case scenario_examples => exact not_mem_of_letters hexamples
  case outline_scenario => exact not_mem_of_letters houtline
  case opening =>
    intro w hw v hv hsame
    rw [stepWords_eq] at hw
    rcases List.mem_append.mp hw with hw | hw
    · exact hw
    · have hall := List.all_eq_true.mp hopening _ (mem_map_toList.mpr hw)
      have hor := List.all_eq_true.mp hall _ (mem_map_toList.mpr hv)
      have hmem : w.toList ∈ d.openingWords.map String.toList := by
        simpa [hsame, letters] using hor
      exact mem_map_toList.mp hmem
  case separator =>
    intro w hw
    have hall := List.all_eq_true.mp hseparator _ (mem_map_toList.mpr hw)
    exact List.all_eq_true.mp hall
  case sheet =>
    intro hmem
    have hcontains : d.letters.examples.contains Letters.sheet = true := by
      rw [List.contains_iff_mem]
      exact mem_map_toList.mpr hmem
    rw [hcontains] at hsheet
    simp only [Bool.not_true, Bool.false_or, Bool.and_eq_true,
      beq_iff_eq] at hsheet
    refine ⟨?_, noWord_of_letters hsheet.2⟩
    have hfind := hsheet.1
    rw [letters, List.find?_map, Option.map_eq_some_iff] at hfind
    obtain ⟨w, hw, hspelled⟩ := hfind
    obtain rfl : w = "Examples" := String.toList_inj.mp hspelled
    exact hw

end Dialect

/-! ## Spelling -/

/-- The words are spelled with these letters. -/
inductive Spells : List (List Char) → List String → Prop
  | nil : Spells [] []
  | cons {l ls ws} : Spells ls ws → Spells (l :: ls) (String.ofList l :: ws)

/-- Letters that spell words are those of the words. -/
theorem Spells.map_toList {ls : List (List Char)} {ws : List String}
    (h : Spells ls ws) : ws.map String.toList = ls := by
  induction h with
  | nil => rfl
  | cons _ ih => simp [ih]

namespace Dialect

/-- The check may be made on letters that are spelled out. -/
theorem clear_of_spells {d : Dialect}
    {others background scenario outline examples opening continuing :
      List (List Char)}
    (hothers : Spells others (d.feature ++ d.rule))
    (hbackground : Spells background d.background)
    (hscenario : Spells scenario d.scenario)
    (houtline : Spells outline d.outline)
    (hexamples : Spells examples d.examples)
    (hopening : Spells opening d.openingWords)
    (hcontinuing : Spells continuing d.continuingWords)
    (h : Letters.clear ⟨others, background, scenario, outline, examples,
      opening, continuing⟩ = true) : d.Clear := by
  refine clear_of_letters ?_
  rw [← h, letters, hothers.map_toList, hbackground.map_toList,
    hscenario.map_toList, houtline.map_toList, hexamples.map_toList,
    hopening.map_toList, hcontinuing.map_toList]

/-- **Every dialect of the table is clear.** -/
theorem clear_of_mem_all : ∀ d ∈ all, d.Clear := by
  rw [← List.forall_iff_forall_mem]
  repeat' apply And.intro
  all_goals apply clear_of_spells <;>
    first | decide +kernel | repeat constructor

end Dialect

end SoloScenario
