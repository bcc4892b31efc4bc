import Mathlib.Algebra.GroupWithZero.Nat
import Mathlib.Data.List.Forall2
import SoloScenario.Proofs.Feature.Stages

/-!
# The parts of a feature, scenario by scenario

A split feature is the concatenation of one **group** of parts for each of
its scenarios, in order.  `PartOf` pins a part down to the last field, and
`Group` says which parts a group has: the scenario itself, or one part for
each row of the first example block of an outline that is expanded.

* `partOf_assemble` — what assembling makes is a part;
* `group_parts` — the parts of one scenario are its group;
* `split_groups` — the whole split, and how many features it has.
-/

namespace SoloScenario

namespace Child

/-- A background is one. -/
@[simp] theorem background?_background (b : Background) :
    (background b).background? = some b := rfl

/-- A scenario is no background. -/
@[simp] theorem background?_scenario (s : Scenario) :
    (scenario s).background? = none := rfl

/-- A background is no scenario. -/
@[simp] theorem scenario?_background (b : Background) :
    (background b).scenario? = none := rfl

/-- A scenario is one. -/
@[simp] theorem scenario?_scenario (s : Scenario) :
    (scenario s).scenario? = some s := rfl

end Child

namespace Feature

/-- All backgrounds of a feature, in order. -/
def backgrounds (f : Feature) : List Background :=
  f.children.filterMap Child.background?

end Feature

namespace Scenario

/-- The rows of the first example block. -/
def firstRows (s : Scenario) : List Row :=
  ((s.examples.bind List.head?).map ExampleBlock.body).getD []

/-- How many parts a scenario has. -/
def weight (expand : Bool) (s : Scenario) : Nat :=
  if expand && s.examples.isSome then s.firstRows.length else 1

end Scenario

/-- `g` is a part of `f` for the scenario `s`: it has the name, the tags
and the backgrounds of `f`, and behind them `s` alone, with the tags of
`f` behind its own and with these example blocks. -/
structure PartOf (f : Feature) (s : Scenario)
    (blocks : Option (List ExampleBlock)) (g : Feature) : Prop where
  name : g.name = f.name
  tags : g.tags = f.tags
  children : g.children = f.backgrounds.map Child.background
    ++ [.scenario ⟨s.keyword, s.name, s.tags ++ f.tags, s.steps, blocks⟩]

/-- The group of a scenario.  A plain scenario, and an outline that is not
expanded, has itself for its only part.  An outline that is expanded has a
part for each row of its first example block, in order: that row alone
stands in the block, and the header and all later blocks stay. -/
structure Group (expand : Bool) (f : Feature) (s : Scenario)
    (group : List Feature) : Prop where
  whole : expand = false ∨ s.examples = none →
    ∃ g, group = [g] ∧ PartOf f s s.examples g
  rows : ∀ header body later, expand = true →
    s.examples = some (⟨header, body⟩ :: later) →
    List.Forall₂ (fun row => PartOf f s (some (⟨header, [row]⟩ :: later)))
      body group
    ∧ (group.flatMap fun g => g.scenarios.flatMap Scenario.firstRows) = body
  no_block : expand = true → s.examples = some [] → group = []

/-! ## One part -/

/-- The template keeps the backgrounds, in order. -/
theorem template_children (f : Feature) :
    f.template.children = f.backgrounds.map Child.background := by
  obtain ⟨name, ts, children⟩ := f
  simp only [Feature.template, Feature.backgrounds]
  induction children with
  | nil => rfl
  | cons child children ih =>
      cases child with
      | background b => simp [List.filter_cons, ih]
      | scenario s => simp [List.filterMap_cons, ih]

/-- **What assembling makes is a part.** -/
theorem partOf_assemble (f : Feature) (s : Scenario)
    (blocks : Option (List ExampleBlock)) :
    PartOf f s blocks (f.template.assemble { s with examples := blocks }) where
  name := rfl
  tags := rfl
  children := by
    rw [Feature.assemble, template_children]
    rfl

namespace PartOf

variable {f g : Feature} {s : Scenario} {blocks : Option (List ExampleBlock)}

/-- A part has the backgrounds of its feature. -/
theorem backgrounds (h : PartOf f s blocks g) :
    g.backgrounds = f.backgrounds := by
  rw [Feature.backgrounds, h.children]
  simp [List.filterMap_map, Function.comp_def]

/-- A part has one scenario. -/
theorem scenarios (h : PartOf f s blocks g) : g.scenarios
    = [⟨s.keyword, s.name, s.tags ++ f.tags, s.steps, blocks⟩] := by
  rw [Feature.scenarios, h.children]
  simp [List.filterMap_map, Function.comp_def]

/-- A tag expression keeps a part exactly where it holds of the own tags
of the scenario with those of the feature behind them. -/
theorem keeps (h : PartOf f s blocks g) (e : TagExpr) :
    (TagFilter.satisfying e).keeps g
      = e.holds ((s.tags ++ f.tags).map Tag.name) := by
  rw [TagFilter.keeps, h.scenarios]
  simp

end PartOf

/-! ## One group -/

/-- The parts that a scenario becomes. -/
def Feature.partsOf (expand : Bool) (f : Feature) (s : Scenario) :
    List Feature :=
  (s.variants expand).map f.template.assemble

/-- The parts of a feature are those of its scenarios, one after the other. -/
theorem split_eq_flatMap (expand : Bool) (f : Feature) :
    f.split expand = f.scenarios.flatMap (f.partsOf expand) := by
  rw [Feature.split, variantsOf, List.map_flatMap]
  rfl

/-- A scenario that is not expanded is its only part. -/
theorem partsOf_whole {expand : Bool} {f : Feature} {s : Scenario}
    (h : expand = false ∨ s.examples = none) :
    f.partsOf expand s = [f.template.assemble s] := by
  have hvariants : s.variants expand = [s] := by
    rcases h with rfl | h
    · rfl
    · cases expand <;> simp [Scenario.variants, h]
  rw [Feature.partsOf, hvariants]
  rfl

/-- An outline that is expanded has one part for each row. -/
theorem partsOf_rows {f : Feature} {s : Scenario} {header : Row}
    {body : List Row} {later : List ExampleBlock}
    (h : s.examples = some (⟨header, body⟩ :: later)) :
    f.partsOf true s = body.map fun row => f.template.assemble
      { s with examples := some (⟨header, [row]⟩ :: later) } := by
  simp [Feature.partsOf, Scenario.variants, h, rowBlocks, Function.comp_def]

/-- Parts with one row each have those rows, one after the other. -/
theorem rows_of_parts {f : Feature} {s : Scenario} {header : Row}
    {later : List ExampleBlock} {body : List Row} {group : List Feature}
    (h : List.Forall₂
      (fun row => PartOf f s (some (⟨header, [row]⟩ :: later))) body group) :
    (group.flatMap fun g => g.scenarios.flatMap Scenario.firstRows)
      = body := by
  induction h with
  | nil => rfl
  | cons hpart _ ih =>
      rw [List.flatMap_cons, ih, hpart.scenarios]
      rfl

/-- **Group.**  The parts of a scenario are its group. -/
theorem group_parts (expand : Bool) (f : Feature) (s : Scenario) :
    Group expand f s (f.partsOf expand s) := by
  constructor
  · intro h
    have hpart := partOf_assemble f s s.examples
    exact ⟨_, partsOf_whole h, hpart⟩
  · intro header body later hexpand hblocks
    subst hexpand
    have hparts : List.Forall₂
        (fun row => PartOf f s (some (⟨header, [row]⟩ :: later)))
        body (f.partsOf true s) := by
      rw [partsOf_rows hblocks, List.forall₂_map_right_iff,
        List.forall₂_same]
      intro row _
      exact partOf_assemble f s _
    exact ⟨hparts, rows_of_parts hparts⟩
  · intro hexpand hblocks
    subst hexpand
    simp [Feature.partsOf, Scenario.variants, hblocks, rowBlocks]

/-- What the parts of a scenario are made of. -/
theorem partOf_of_mem_partsOf {expand : Bool} {f g : Feature} {s : Scenario}
    (h : g ∈ f.partsOf expand s) : ∃ blocks, PartOf f s blocks g := by
  obtain ⟨v, hv, rfl⟩ := List.mem_map.mp h
  -- A variant differs from its scenario in its example blocks only.
  have hcopy : v = { s with examples := v.examples } := by
    unfold Scenario.variants at hv
    split at hv
    · obtain ⟨copy, -, rfl⟩ := List.mem_map.mp hv
      rfl
    · rw [List.mem_singleton.mp hv]
  refine ⟨v.examples, ?_⟩
  rw [hcopy]
  exact partOf_assemble f s v.examples

/-- A scenario has as many parts as its weight says. -/
theorem length_partsOf (expand : Bool) (f : Feature) (s : Scenario) :
    (f.partsOf expand s).length = s.weight expand := by
  by_cases h : expand = false ∨ s.examples = none
  · have hweight : (expand && s.examples.isSome) = false := by
      rcases h with h | h <;> simp [h]
    rw [partsOf_whole h, Scenario.weight, hweight]
    rfl
  · obtain ⟨hexpand, hexamples⟩ := not_or.mp h
    obtain ⟨blocks, hblocks⟩ := Option.ne_none_iff_exists'.mp hexamples
    obtain rfl : expand = true := by simpa using hexpand
    cases blocks with
    | nil =>
        simp [Feature.partsOf, Scenario.variants, Scenario.weight,
          Scenario.firstRows, hblocks, rowBlocks]
    | cons block later =>
        rw [partsOf_rows hblocks]
        simp [Scenario.weight, Scenario.firstRows, hblocks]

/-! ## The whole split -/

/-- Every feature of a split is a part for one of the scenarios. -/
theorem partOf_of_mem_split {expand : Bool} {f g : Feature}
    (h : g ∈ f.split expand) :
    ∃ s ∈ f.scenarios, ∃ blocks, PartOf f s blocks g := by
  rw [split_eq_flatMap] at h
  obtain ⟨s, hs, hg⟩ := List.mem_flatMap.mp h
  exact ⟨s, hs, partOf_of_mem_partsOf hg⟩

/-- **Splitting loses, repeats and reorders nothing.**  The split of a
feature is made of the groups of its scenarios, in order, so it has as
many features as the scenarios weigh together: one for each scenario, and
for an outline that is expanded one for each row of its first example
block. -/
theorem split_groups (expand : Bool) (f : Feature) :
    (∃ groups, f.split expand = groups.flatten
      ∧ List.Forall₂ (Group expand f) f.scenarios groups)
    ∧ (∀ g ∈ f.split expand, ∃ s ∈ f.scenarios, ∃ blocks,
      PartOf f s blocks g)
    ∧ (f.split expand).length
      = (f.scenarios.map (Scenario.weight expand)).sum := by
  refine ⟨⟨f.scenarios.map (f.partsOf expand), ?_, ?_⟩, ?_, ?_⟩
  · rw [split_eq_flatMap, List.flatMap_def]
  · rw [List.forall₂_map_right_iff, List.forall₂_same]
    intro s _
    exact group_parts expand f s
  · intro g hg
    exact partOf_of_mem_split hg
  · rw [split_eq_flatMap, List.length_flatMap]
    simp only [length_partsOf]

end SoloScenario
