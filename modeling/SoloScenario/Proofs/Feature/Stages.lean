import SoloScenario.Feature.Filter
import SoloScenario.Feature.Split

/-!
# Splitting and filtering in stages

A list of features may be split and filtered again and again.  Splitting
what has been split repeats the tags of the feature, so a second split is
not the identity; but this is all it does beyond expanding outlines.  A
run that starts with a split therefore has a closed form
(`run_closed_form`): drop the scenarios that some filter refuses, split
once, and write the feature's tags as often as there were splits.

The invariant of a run is that closed form itself (`Feature.allParts`):

* `allParts_split` — a split adds one repetition of the tags and its flag;
* `allParts_filter` — a filter adds itself to the filters.
-/

namespace SoloScenario

/-- One stage of a run. -/
inductive Stage where
  | split (expand : Bool)
  | filter (chosen : TagFilter)
deriving DecidableEq, Repr

namespace Stage

/-- What a stage makes of the features that it is given. -/
def apply (features : List Feature) : Stage → List Feature
  | split expand => features.flatMap (Feature.split expand)
  | filter chosen => chosen.select features

/-- What the stages make of the features, one after the other. -/
def run (stages : List Stage) (features : List Feature) : List Feature :=
  stages.foldl apply features

/-- The flag of a split. -/
def flag? : Stage → Option Bool
  | split expand => some expand
  | filter _ => none

/-- The filter of a stage that filters. -/
def filter? : Stage → Option TagFilter
  | split _ => none
  | filter chosen => some chosen

/-- The flags of all splits. -/
def flags (stages : List Stage) : List Bool :=
  stages.filterMap flag?

/-- All filters. -/
def filters (stages : List Stage) : List TagFilter :=
  stages.filterMap filter?

/-- The flag of a split comes first. -/
@[simp] theorem flags_split (expand : Bool) (stages : List Stage) :
    flags (.split expand :: stages) = expand :: flags stages := rfl

/-- A filter has no flag. -/
@[simp] theorem flags_filter (chosen : TagFilter) (stages : List Stage) :
    flags (.filter chosen :: stages) = flags stages := rfl

/-- A split has no filter. -/
@[simp] theorem filters_split (expand : Bool) (stages : List Stage) :
    filters (.split expand :: stages) = filters stages := rfl

/-- A filter comes before those behind it. -/
@[simp] theorem filters_filter (chosen : TagFilter) (stages : List Stage) :
    filters (.filter chosen :: stages) = chosen :: filters stages := rfl

end Stage

/-- Whether a filter accepts a scenario with these tags. -/
def TagFilter.accepts (tags : List Tag) : TagFilter → Bool
  | all => true
  | satisfying e => e.holds (tags.map Tag.name)

namespace Feature

/-- Whether all filters accept a scenario of `f`, with its own tags and
those of the feature behind them. -/
def passes (filters : List TagFilter) (f : Feature) (s : Scenario) : Bool :=
  filters.all (TagFilter.accepts (s.tags ++ f.tags))

/-- The feature without the scenarios that some filter refuses. -/
def prune (filters : List TagFilter) (f : Feature) : Feature :=
  { f with
    children := f.children.filter fun child =>
      child.scenario?.all (f.passes filters) }

/-- The template with one scenario behind its children, which gets the
tags of the template `k` times behind its own. -/
def assembleTimes (k : Nat) (template : Feature) (s : Scenario) : Feature :=
  { template with
    children := template.children
      ++ [.scenario { s with
        tags := s.tags ++ (List.replicate k template.tags).flatten }] }

/-- The split of a feature with its tags written `k` times behind those
of each scenario. -/
def splitTimes (k : Nat) (expand : Bool) (f : Feature) : List Feature :=
  (variantsOf expand f.children).map (f.template.assembleTimes k)

/-- The parts that one scenario of `f` becomes, with the tags of `f`
written `k` times. -/
def parts (k : Nat) (expand : Bool) (f : Feature) (s : Scenario) :
    List Feature :=
  (s.variants expand).map (f.template.assembleTimes k)

/-- The parts of the scenarios that pass. -/
def allParts (k : Nat) (expand : Bool) (filters : List TagFilter)
    (f : Feature) : List Feature :=
  (f.scenarios.filter (f.passes filters)).flatMap (f.parts k expand)

end Feature

/-! ## Variants -/

/-- A scenario with other tags has the same variants, with those tags. -/
theorem variants_tags (expand : Bool) (s : Scenario) (tags : List Tag) :
    ({ s with tags := tags } : Scenario).variants expand
      = (s.variants expand).map fun v => { v with tags := tags } := by
  cases expand with
  | false => rfl
  | true =>
      cases h : s.examples with
      | none => simp [Scenario.variants, h]
      | some blocks => simp [Scenario.variants, h]

/-- A variant has the tags of its scenario. -/
theorem tags_of_mem_variants {expand : Bool} {s v : Scenario}
    (h : v ∈ s.variants expand) : v.tags = s.tags := by
  unfold Scenario.variants at h
  split at h
  · obtain ⟨copy, -, rfl⟩ := List.mem_map.mp h
    rfl
  · rw [List.mem_singleton.mp h]

/-- What has one row is not expanded any further. -/
theorem variants_rowCopy (expand : Bool) (s : Scenario) (header row : Row)
    (later : List ExampleBlock) :
    ({ s with examples := some (⟨header, [row]⟩ :: later) } :
      Scenario).variants expand
      = [{ s with examples := some (⟨header, [row]⟩ :: later) }] := by
  cases expand <;> rfl

/-- **Expanding twice is expanding once.**  The variants of the variants
are those for either flag. -/
theorem variants_variants (a b : Bool) (s : Scenario) :
    (s.variants a).flatMap (Scenario.variants b) = s.variants (a || b) := by
  cases a with
  | false => simp [Scenario.variants]
  | true =>
      cases hs : s.examples with
      | none =>
          cases b <;> simp [Scenario.variants, hs]
      | some blocks =>
          cases blocks with
          | nil => simp [Scenario.variants, hs, rowBlocks]
          | cons block later =>
              simp only [Scenario.variants, hs, rowBlocks, List.map_map,
                Bool.true_or, List.flatMap_map]
              rw [← List.flatMap_singleton'
                (block.body.map _), List.flatMap_map]
              congr 1
              funext row
              -- A copy has one row left, whichever flag comes second.
              exact variants_rowCopy b s block.header row later

/-! ## Assembled features -/

/-- Assembling once is assembling. -/
theorem assembleTimes_one (template : Feature) (s : Scenario) :
    template.assembleTimes 1 s = template.assemble s := by
  simp [Feature.assembleTimes, Feature.assemble]

/-- A template has no scenarios. -/
theorem template_scenarios (f : Feature) : f.template.scenarios = [] := by
  simp only [Feature.scenarios, Feature.template, List.filterMap_eq_nil_iff,
    List.mem_filter]
  rintro (b | s) ⟨-, h⟩
  · rfl
  · simp [Child.background?] at h

/-- Assembled `k` times, a feature has one scenario, with `k` times the tags of
the feature behind its own. -/
theorem assembleTimes_scenarios (k : Nat) (f : Feature) (s : Scenario) :
    (f.template.assembleTimes k s).scenarios
      = [{ s with tags := s.tags ++ (List.replicate k f.tags).flatten }] := by
  have h := template_scenarios f
  simp only [Feature.scenarios] at h
  simp [Feature.scenarios, Feature.assembleTimes, h, Child.scenario?]
  rfl

/-- Its template stays the same. -/
theorem assembleTimes_template (k : Nat) (f : Feature) (s : Scenario) :
    (f.template.assembleTimes k s).template = f.template := by
  simp [Feature.assembleTimes, Feature.template, Child.background?]

/-- **Splitting a part again.**  It is expanded as far as the flag asks,
and the tags of the feature are written once more. -/
theorem split_assembleTimes (expand : Bool) (k : Nat) (f : Feature)
    (s : Scenario) :
    (f.template.assembleTimes k s).split expand
      = (s.variants expand).map (f.template.assembleTimes (k + 1)) := by
  have hscenarios := assembleTimes_scenarios k f s
  rw [Feature.scenarios] at hscenarios
  rw [Feature.split, variantsOf, hscenarios, assembleTimes_template,
    List.flatMap_singleton, variants_tags, List.map_map]
  refine List.map_congr_left fun v hv => ?_
  have htags : v.tags = s.tags := tags_of_mem_variants hv
  simp [Feature.assemble, Feature.assembleTimes, Feature.template, htags,
    List.replicate_succ']

/-! ## Filters -/

/-- A filter sees which tags there are, not how often. -/
theorem accepts_congr {xs ys : List Tag} (h : ∀ t, t ∈ xs ↔ t ∈ ys)
    (chosen : TagFilter) : chosen.accepts xs = chosen.accepts ys := by
  cases chosen with
  | all => rfl
  | satisfying e =>
      refine TagExpr.holds_congr (fun name => ?_) e
      simp only [List.mem_map, h]

/-- A list that is repeated at least once has the tags that it had. -/
theorem mem_flatten_replicate {k : Nat} (hk : 0 < k) (tags : List Tag)
    (t : Tag) : t ∈ (List.replicate k tags).flatten ↔ t ∈ tags := by
  simp only [List.mem_flatten, List.mem_replicate]
  constructor
  · rintro ⟨l, ⟨-, rfl⟩, ht⟩
    exact ht
  · intro ht
    exact ⟨tags, ⟨by omega, rfl⟩, ht⟩

/-- A filter keeps a part exactly where it accepts the scenario with the
tags of the feature behind its own. -/
theorem keeps_assembleTimes {k : Nat} (hk : 0 < k) (chosen : TagFilter)
    (f : Feature) (s : Scenario) :
    chosen.keeps (f.template.assembleTimes k s)
      = chosen.accepts (s.tags ++ f.tags) := by
  have hmem : ∀ t, t ∈ s.tags ++ (List.replicate k f.tags).flatten
      ↔ t ∈ s.tags ++ f.tags := by
    intro t
    simp only [List.mem_append, mem_flatten_replicate hk]
  rw [← accepts_congr hmem chosen]
  cases chosen with
  | all => rfl
  | satisfying e =>
      simp [TagFilter.keeps, assembleTimes_scenarios, TagFilter.accepts]

/-- A filter keeps all parts of a scenario or none. -/
theorem select_parts {k : Nat} (hk : 0 < k) (expand : Bool)
    (chosen : TagFilter) (f : Feature) (s : Scenario) :
    chosen.select (f.parts k expand s)
      = if chosen.accepts (s.tags ++ f.tags) then f.parts k expand s
        else [] := by
  have hall : ∀ part ∈ f.parts k expand s,
      chosen.keeps part = chosen.accepts (s.tags ++ f.tags) := by
    intro part hpart
    obtain ⟨v, hv, rfl⟩ := List.mem_map.mp hpart
    rw [keeps_assembleTimes hk, tags_of_mem_variants hv]
  unfold TagFilter.select
  split
  · next h =>
      exact List.filter_eq_self.mpr fun part hpart =>
        (hall part hpart).trans h
  · next h =>
      refine List.filter_eq_nil_iff.mpr fun part hpart => ?_
      rw [hall part hpart]
      exact h

/-! ## Runs -/

/-- A split writes the tags once more, and expands what its flag asks
for. -/
theorem allParts_split (a b : Bool) (k : Nat) (filters : List TagFilter)
    (f : Feature) :
    (Stage.split b).apply (f.allParts k a filters)
      = f.allParts (k + 1) (a || b) filters := by
  simp only [Stage.apply, Feature.allParts, List.flatMap_assoc]
  refine congrArg (List.flatMap · _) (funext fun s => ?_)
  rw [Feature.parts, List.flatMap_map]
  simp only [split_assembleTimes]
  rw [Feature.parts, ← variants_variants, List.map_flatMap]

/-- What is filtered out contributes nothing. -/
theorem flatMap_filter {α β : Type} (p : α → Bool) (g : α → List β)
    (l : List α) :
    (l.filter p).flatMap g = l.flatMap fun a => if p a then g a else [] := by
  induction l with
  | nil => rfl
  | cons a l ih =>
      cases h : p a with
      | true => simp [h, ih]
      | false => simp [h, ih]

/-- A filter adds itself to the filters. -/
theorem allParts_filter {k : Nat} (hk : 0 < k) (a : Bool)
    (filters : List TagFilter) (chosen : TagFilter) (f : Feature) :
    (Stage.filter chosen).apply (f.allParts k a filters)
      = f.allParts k a (filters ++ [chosen]) := by
  have hpass : f.passes (filters ++ [chosen])
      = fun s => chosen.accepts (s.tags ++ f.tags) && f.passes filters s := by
    funext s
    simp [Feature.passes, Bool.and_comm]
  calc (Stage.filter chosen).apply (f.allParts k a filters)
      = (f.scenarios.filter (f.passes filters)).flatMap
          fun s => chosen.select (f.parts k a s) := List.filter_flatMap
    _ = (f.scenarios.filter (f.passes filters)).flatMap fun s =>
          if chosen.accepts (s.tags ++ f.tags) then f.parts k a s else [] := by
        simp only [select_parts hk]
    _ = ((f.scenarios.filter (f.passes filters)).filter fun s =>
          chosen.accepts (s.tags ++ f.tags)).flatMap (f.parts k a) :=
        (flatMap_filter _ _ _).symm
    _ = f.allParts k a (filters ++ [chosen]) := by
        rw [List.filter_filter, Feature.allParts, hpass]

/-- **Run.**  From the parts of a feature every run leads to parts of it:
as many repetitions, flags and filters as there are stages for them are
added. -/
theorem run_allParts (stages : List Stage) {k : Nat} (hk : 0 < k) (a : Bool)
    (filters : List TagFilter) (f : Feature) :
    Stage.run stages (f.allParts k a filters)
      = f.allParts (k + (Stage.flags stages).length)
          (a || (Stage.flags stages).any id)
          (filters ++ Stage.filters stages) := by
  -- The closed form is the invariant; only its parameters move.
  induction stages generalizing k a filters with
  | nil => simp [Stage.run, Stage.flags, Stage.filters]
  | cons stage stages ih =>
      rw [Stage.run, List.foldl_cons]
      cases stage with
      | split b =>
          rw [allParts_split]
          refine (ih (by omega) (a || b) filters).trans ?_
          simp [Bool.or_assoc, Nat.add_assoc, Nat.add_comm 1]
      | filter chosen =>
          rw [allParts_filter hk]
          refine (ih hk a (filters ++ [chosen])).trans ?_
          simp

/-- The first split makes the parts on which the later stages work. -/
theorem run_split (expand : Bool) (stages : List Stage) (f : Feature) :
    Stage.run (.split expand :: stages) [f]
      = Stage.run stages (f.allParts 1 expand []) := by
  have hpass : f.scenarios.filter (f.passes []) = f.scenarios :=
    List.filter_eq_self.mpr fun _ _ => rfl
  have hfirst : (Stage.split expand).apply [f] = f.allParts 1 expand [] := by
    rw [Stage.apply, List.flatMap_singleton, Feature.split, variantsOf,
      List.map_flatMap, Feature.allParts, hpass]
    refine congrArg (List.flatMap · _) (funext fun s => ?_)
    exact List.map_congr_left fun v _ => (assembleTimes_one f.template v).symm
  rw [Stage.run, List.foldl_cons, hfirst, Stage.run]

/-- Pruning leaves the template. -/
theorem prune_template (filters : List TagFilter) (f : Feature) :
    (f.prune filters).template = f.template := by
  simp only [Feature.template, Feature.prune, List.filter_filter]
  congr 2
  funext child
  cases child <;> rfl

/-- Pruning leaves the scenarios that pass. -/
theorem prune_scenarios (filters : List TagFilter) (f : Feature) :
    (f.prune filters).scenarios = f.scenarios.filter (f.passes filters) := by
  simp only [Feature.scenarios, Feature.prune, List.filterMap_filter,
    List.filter_filterMap]
  refine congrArg (List.filterMap · _) (funext fun child => ?_)
  cases child with
  | background b => rfl
  | scenario s =>
      cases h : f.passes filters s <;>
        simp [Child.scenario?, Option.filter, h]

/-- The parts of the scenarios that pass are those of the pruned
feature. -/
theorem splitTimes_prune (k : Nat) (expand : Bool) (filters : List TagFilter)
    (f : Feature) :
    (f.prune filters).splitTimes k expand = f.allParts k expand filters := by
  have h := prune_scenarios filters f
  rw [Feature.scenarios] at h
  rw [Feature.splitTimes, variantsOf, h, prune_template, List.map_flatMap]
  rfl

/-- Which filters there are decides what passes, not their order or
number. -/
theorem passes_congr {xs ys : List TagFilter} (h : ∀ c, c ∈ xs ↔ c ∈ ys)
    (f : Feature) : f.passes xs = f.passes ys := by
  funext s
  rw [Bool.eq_iff_iff]
  simp only [Feature.passes, List.all_eq_true, h]

/-- A run that starts with a split, as the parts of its feature. -/
theorem run_eq_allParts (expand : Bool) (stages : List Stage) (f : Feature) :
    Stage.run (.split expand :: stages) [f]
      = f.allParts (Stage.flags (.split expand :: stages)).length
          ((Stage.flags (.split expand :: stages)).any id)
          (Stage.filters (.split expand :: stages)) := by
  rw [run_split, run_allParts stages Nat.one_pos]
  simp [Nat.add_comm 1]

/-- **Closed form of a run.**  Let a run start with a split of one
feature, `k` be the number of its splits and `b` whether one of them
expands.  Its outcome is the split of the pruned feature with the flag
`b`, in the same order, where the tags of the feature are written `k`
times; written once, they make the plain split.  So a run does not depend
on where its filters stand behind the first split, and each scenario
leaves all of its parts or none. -/
theorem run_closed_form (f : Feature) (expand : Bool) (stages : List Stage) :
    let all := Stage.split expand :: stages
    let k := (Stage.flags all).length
    let b := (Stage.flags all).any id
    Stage.run all [f] = (f.prune (Stage.filters all)).splitTimes k b
    ∧ (∀ g : Feature, g.splitTimes 1 b = g.split b)
    ∧ (∀ others : List Stage, Stage.flags others = Stage.flags stages →
      (∀ c, c ∈ Stage.filters others ↔ c ∈ Stage.filters stages) →
      Stage.run (.split expand :: others) [f] = Stage.run all [f])
    ∧ Stage.run all [f] = f.scenarios.flatMap fun s =>
        if f.passes (Stage.filters all) s then f.parts k b s else [] := by
  intro all k b
  have hrun := run_eq_allParts expand stages f
  refine ⟨hrun.trans (splitTimes_prune k b _ f).symm, fun g => ?_,
    fun others hflags hfilters => ?_, ?_⟩
  · exact List.map_congr_left fun s _ => assembleTimes_one g.template s
  · have hpass := passes_congr hfilters f
    rw [run_eq_allParts, hrun]
    simp only [Feature.allParts, Stage.flags_split, Stage.filters_split,
      hflags, hpass]
  · rw [hrun, Feature.allParts, flatMap_filter]

/-- An outline with two rows that is split three times: a filter that
looks at the tags of the feature may stand anywhere behind the first
split. -/
theorem run_closed_form_moved_filter :
    let outline : Scenario := ⟨"Scenario Outline", "o", [⟨"@a"⟩], [],
      some [⟨⟨["h"]⟩, [⟨["1"]⟩, ⟨["2"]⟩]⟩]⟩
    let f : Feature := ⟨"f", [⟨"@f"⟩], [.scenario outline]⟩
    let chosen := Stage.filter (.satisfying (.tag "@f"))
    Stage.run [.split false, chosen, .split true, .split false] [f]
      = Stage.run [.split false, .split true, .split false, chosen] [f]
    ∧ (Stage.run [.split false, .split true, .split false, chosen] [f]).length
      = 2 := by
  intro outline f chosen
  refine ⟨?_, by decide⟩
  exact (run_closed_form f false [.split true, .split false, chosen]).2.2.1
    [chosen, .split true, .split false] rfl (fun _ => Iff.rfl)

end SoloScenario
