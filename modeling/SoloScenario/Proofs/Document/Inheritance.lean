import SoloScenario.Document.Basic
import SoloScenario.Proofs.Feature.Groups

/-!
# What rules hand down

A document with rules is split as a feature without any.  A `Source` is a
scenario where it stands in the document; what it runs (`Document.runs`)
and the tags that it has there (`Document.tagsOf`) are said on the document
alone.

* `Flattened` — a standalone feature that runs and selects like a source;
* `flattened_of_partOf` — every part of the flattened document is one;
* `split_flattened` — the split of a document, source by source.
-/

namespace SoloScenario

/-- The steps that a feature runs for its scenario: those of its
backgrounds and then those of the scenario. -/
def Feature.runs (g : Feature) : List Step :=
  g.backgrounds.flatMap Background.steps ++ g.scenarios.flatMap Scenario.steps

namespace Document

/-- A scenario where it stands: under a rule, or under none. -/
structure Source where
  rule : Option Rule
  scenario : Scenario

/-- All scenarios of a document where they stand, those outside rules
first. -/
def sources (d : Document) : List Source :=
  d.scenarios.map (Source.mk none)
    ++ d.rules.flatMap fun r => r.scenarios.map (Source.mk (some r))

/-- The steps of a background that may be missing. -/
def sharedSteps (b : Option Background) : List Step :=
  (b.map Background.steps).getD []

/-- What a source runs: the steps of the document's background, those of
its rule's background, and its own. -/
def runs (d : Document) (x : Source) : List Step :=
  sharedSteps d.background ++ sharedSteps (x.rule.bind Rule.background)
    ++ x.scenario.steps

/-- The tags of a source: its own, those of its rule, and those of the
document. -/
def tagsOf (d : Document) (x : Source) : List Tag :=
  (x.scenario.tags ++ (x.rule.map Rule.tags).getD [] ++ d.tags).map Tag.ofName

/-- The rows of an example section below its header. -/
def Examples.rows (e : Examples) : List Row :=
  (e.table.getD []).tail

/-- `g` is a standalone feature for the source `x`.  It has at most one
background, in front, and one scenario behind it; together they run what
the source runs, and the scenario has the tags of the source, each with
its `@`.  So a tag expression keeps `g` exactly where it holds of them. -/
structure Flattened (d : Document) (x : Source) (g : Feature) : Prop where
  runs : g.runs = d.runs x
  order : ∃ v : SoloScenario.Scenario,
    g.children = d.background.toList.map Child.background ++ [.scenario v]
    ∧ v.keyword = x.scenario.keyword ∧ v.name = x.scenario.name
    ∧ v.tags = d.tagsOf x
  marked : ∀ t ∈ d.tagsOf x, t.name.toList.head? = some '@'
  keeps : ∀ e : TagExpr, (TagFilter.satisfying e).keeps g
    = e.holds ((d.tagsOf x).map Tag.name)

/-- The standalone features of a source: one, or one for each row of the
first example section where it has such sections and they are expanded. -/
structure FlattenedGroup (expand : Bool) (d : Document) (x : Source)
    (group : List Feature) : Prop where
  whole : expand = false ∨ x.scenario.examples = [] →
    ∃ g, group = [g] ∧ Flattened d x g
  rows : ∀ first later, expand = true →
    x.scenario.examples = first :: later →
    List.Forall₂ (fun row g => Flattened d x g
      ∧ g.scenarios.flatMap SoloScenario.Scenario.firstRows = [row])
      first.rows group

/-! ## A source and what it inherits -/

/-- A source as a scenario without a rule. -/
def Source.inherited (x : Source) : SoloScenario.Scenario :=
  x.scenario.inherit (((x.rule.map Rule.tags).getD []).map Tag.ofName)
    ((x.rule.map Rule.steps).getD [])

/-- The scenarios of the tree are those of the document and those of its rules.
-/
theorem allScenarios_toFeature (d : Document) :
    d.toFeature.scenarios = d.allScenarios := by
  simp [Feature.scenarios, toFeature, List.filterMap_map,
    Function.comp_def]

/-- Each of them has inherited what its rule hands down. -/
theorem scenarios_toFeature (d : Document) :
    d.toFeature.scenarios = d.sources.map Source.inherited := by
  rw [allScenarios_toFeature, allScenarios, sources, List.map_append,
    List.map_flatMap]
  simp only [List.map_map]
  rfl

/-- The only background of the tree is the one of the document. -/
theorem backgrounds_toFeature (d : Document) :
    d.toFeature.backgrounds = d.background.toList := by
  simp [Feature.backgrounds, toFeature, List.filterMap_map,
    Function.comp_def]

/-- The steps of a background that may be missing, in a list. -/
theorem sharedSteps_toList (b : Option Background) :
    b.toList.flatMap Background.steps = sharedSteps b := by
  cases b <;> simp [sharedSteps]

/-- A source has the steps of its rule's background in front of its own. -/
theorem Source.inherited_steps (x : Source) : x.inherited.steps
    = sharedSteps (x.rule.bind Rule.background) ++ x.scenario.steps := by
  obtain ⟨_ | r, s⟩ := x
  · rfl
  · rfl

/-- Behind the tags of a source stand those of the document. -/
theorem Source.inherited_tags (d : Document) (x : Source) :
    x.inherited.tags ++ d.toFeature.tags = d.tagsOf x := by
  simp [Source.inherited, Scenario.inherit, toFeature, tagsOf]

/-- A source without example sections is a plain scenario. -/
theorem Source.inherited_plain {x : Source} (h : x.scenario.examples = []) :
    x.inherited.examples = none := by
  simp [Source.inherited, Scenario.inherit, h]

/-- A source with example sections is an outline, and the rows of its
first section are those of its first example block. -/
theorem Source.inherited_outline {x : Source} {first : Examples}
    {later : List Examples} (h : x.scenario.examples = first :: later) :
    ∃ header, x.inherited.examples
      = some (⟨header, first.rows⟩ :: later.map Examples.toBlock) := by
  have hexamples : x.inherited.examples
      = some (first.toBlock :: later.map Examples.toBlock) := by
    simp [Source.inherited, Scenario.inherit, h]
  have hblock : ∃ header, first.toBlock = ⟨header, first.rows⟩ := by
    obtain ⟨_ | _ | ⟨header, body⟩⟩ := first
    · exact ⟨⟨[]⟩, rfl⟩
    · exact ⟨⟨[]⟩, rfl⟩
    · exact ⟨header, rfl⟩
  obtain ⟨header, hheader⟩ := hblock
  exact ⟨header, by rw [hexamples, hheader]⟩

/-! ## Parts of the flattened document -/

/-- A tag that is read has its `@`. -/
theorem head?_ofName (name : String) :
    (Tag.ofName name).name.toList.head? = some '@' := by
  unfold Tag.ofName
  split
  · next h => exact h
  · simp

/-- **Part.**  A part of the flattened document runs and selects like the
source that it comes from. -/
theorem flattened_of_partOf {d : Document} {x : Source}
    {blocks : Option (List ExampleBlock)} {g : Feature}
    (h : PartOf d.toFeature x.inherited blocks g) : Flattened d x g where
  runs := by
    rw [Feature.runs, h.backgrounds, backgrounds_toFeature,
      sharedSteps_toList, h.scenarios, List.flatMap_singleton,
      Source.inherited_steps, Document.runs, List.append_assoc]
  order := by
    have hchildren := h.children
    rw [backgrounds_toFeature] at hchildren
    exact ⟨_, hchildren, rfl, rfl, Source.inherited_tags d x⟩
  marked := by
    intro t ht
    obtain ⟨name, -, rfl⟩ := List.mem_map.mp ht
    exact head?_ofName name
  keeps := by
    intro e
    rw [h.keeps, Source.inherited_tags]

/-- **Group.**  The parts of a source are its standalone features. -/
theorem flattenedGroup_parts (expand : Bool) (d : Document) (x : Source) :
    FlattenedGroup expand d x (d.toFeature.partsOf expand x.inherited) := by
  have hgroup := group_parts expand d.toFeature x.inherited
  constructor
  · intro h
    have hwhole : expand = false ∨ x.inherited.examples = none := by
      rcases h with h | h
      · exact Or.inl h
      · exact Or.inr (Source.inherited_plain h)
    obtain ⟨g, hg, hpart⟩ := hgroup.whole hwhole
    exact ⟨g, hg, flattened_of_partOf hpart⟩
  · intro first later hexpand h
    obtain ⟨header, hblocks⟩ := Source.inherited_outline h
    obtain ⟨hparts, -⟩ := hgroup.rows header first.rows _ hexpand hblocks
    refine hparts.imp fun row g hpart => ⟨flattened_of_partOf hpart, ?_⟩
    rw [hpart.scenarios]
    rfl

/-- A tag expression keeps all features of a source or none. -/
theorem select_parts_flattened (expand : Bool) (d : Document) (x : Source)
    (e : TagExpr) :
    (TagFilter.satisfying e).select
        (d.toFeature.partsOf expand x.inherited)
      = if e.holds ((d.tagsOf x).map Tag.name) then
          d.toFeature.partsOf expand x.inherited
        else [] := by
  have hkeeps : ∀ g ∈ d.toFeature.partsOf expand x.inherited,
      (TagFilter.satisfying e).keeps g
        = e.holds ((d.tagsOf x).map Tag.name) := by
    intro g hg
    obtain ⟨blocks, hpart⟩ := partOf_of_mem_partsOf hg
    exact (flattened_of_partOf hpart).keeps e
  unfold TagFilter.select
  by_cases hholds : e.holds ((d.tagsOf x).map Tag.name) = true
  · rw [if_pos hholds]
    refine List.filter_eq_self.mpr fun g hg => ?_
    rw [hkeeps g hg, hholds]
  · rw [if_neg hholds]
    refine List.filter_eq_nil_iff.mpr fun g hg => ?_
    rw [hkeeps g hg]
    exact hholds

/-- What is kept of a document is kept source by source. -/
theorem select_split (expand : Bool) (d : Document) (e : TagExpr) :
    (TagFilter.satisfying e).select (d.toFeature.split expand)
      = d.sources.flatMap fun x =>
        if e.holds ((d.tagsOf x).map Tag.name) then
          d.toFeature.partsOf expand x.inherited
        else [] := by
  rw [split_eq_flatMap, scenarios_toFeature, List.flatMap_map,
    TagFilter.select, List.filter_flatMap]
  refine congrArg (List.flatMap · _) (funext fun x => ?_)
  exact select_parts_flattened expand d x e

/-- **Rules are flattened without changing what a scenario runs or how it
is selected.**  The split of a document is made of the groups of its
sources, in order: each feature of a group has one source, runs what the
source runs and has its tags, and a tag expression keeps the features of
those sources whose tags it holds of. -/
theorem split_flattened (expand : Bool) (d : Document) :
    ∃ groups, d.toFeature.split expand = groups.flatten
      ∧ List.Forall₂ (FlattenedGroup expand d) d.sources groups
      ∧ ∀ e : TagExpr,
        (TagFilter.satisfying e).select (d.toFeature.split expand)
          = (List.zipWith (fun x group =>
              if e.holds ((d.tagsOf x).map Tag.name) then group else [])
              d.sources groups).flatten := by
  refine ⟨d.sources.map fun x => d.toFeature.partsOf expand x.inherited,
    ?_, ?_, ?_⟩
  · rw [split_eq_flatMap, scenarios_toFeature, List.flatMap_map,
      List.flatMap_def]
  · rw [List.forall₂_map_right_iff, List.forall₂_same]
    intro x _
    exact flattenedGroup_parts expand d x
  · intro e
    rw [select_split, List.flatMap_def, List.zipWith_map_right,
      List.zipWith_self]

end Document

end SoloScenario
