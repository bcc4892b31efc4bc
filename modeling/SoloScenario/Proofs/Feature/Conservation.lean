import SoloScenario.Feature.Render
import SoloScenario.Proofs.Feature.Groups

/-!
# What splitting does to the text of a feature

Every part of a feature starts with the text of the template; what it has
behind that is its **block**.  The blocks are where the text of the
feature goes:

* `render_assemble` — the block of a part is the text of its scenario;
* `render_of_backgrounds_first` — without tags of its own, and with its
  backgrounds in front, a feature is the template and all blocks behind
  one another;
* `block_outline` — the block of an outline has one front and a line for
  each of its rows, and where the outline is expanded each of its parts
  has that front and one of these lines;
* `render_conserved` — all of it, said of the whole split.
-/

namespace SoloScenario

/-- Lines, each with its line feed. -/
def unlines (ls : List String) : String :=
  String.join (ls.map (· ++ "\n"))

/-- Lines behind others have their text behind that of those. -/
@[simp] theorem unlines_append (ls ms : List String) :
    unlines (ls ++ ms) = unlines ls ++ unlines ms := by
  simp [unlines]

/-- The lines of several texts are their texts behind one another. -/
theorem unlines_flatMap {α : Type} (g : α → List String) (xs : List α) :
    unlines (xs.flatMap g) = String.join (xs.map fun x => unlines (g x)) := by
  induction xs with
  | nil => rfl
  | cons x xs ih =>
      rw [List.flatMap_cons, unlines_append, ih, List.map_cons,
        String.join_cons]

/-! ## The lines of an outline -/

/-- The lines of an outline down to the header of its first block. -/
def Scenario.frontLines (s : Scenario) (header : Row) : List String :=
  s.tags.map Tag.name
    ++ headingLine s.keyword s.name :: s.steps.flatMap Step.lines
    ++ ["Examples:", header.line]

/-- The rows of the first block are the last lines of an outline. -/
theorem lines_outline (s : Scenario) (header : Row) (rows : List Row)
    (later : List ExampleBlock) :
    ({ s with examples := some (⟨header, rows⟩ :: later) } : Scenario).lines
      = s.frontLines header ++ rows.map Row.line := by
  simp [Scenario.lines, Scenario.frontLines, ExampleBlock.lines]

/-- A scenario with more tags behind its own. -/
def Scenario.tagged (s : Scenario) (tags : List Tag) : Scenario :=
  { s with tags := s.tags ++ tags }

/-- No tags add nothing. -/
theorem Scenario.tagged_nil (s : Scenario) : s.tagged [] = s := by
  rw [tagged, List.append_nil]

namespace Feature

/-- A feature is its lines, each with its line feed. -/
theorem render_eq (f : Feature) : f.render = unlines f.lines := rfl

/-! ## One block -/

/-- What a part has behind the text of the template. -/
def block (f part : Feature) : String :=
  String.ofList (part.render.toList.drop f.template.render.toList.length)

/-- The block of a part is what stands behind the template. -/
theorem block_of_render {f part : Feature} {text : String}
    (h : part.render = f.template.render ++ text) : f.block part = text := by
  rw [block, h, String.toList_append, List.drop_left, String.ofList_toList]

/-- **The block of a part is the text of its scenario,** which has the tags
of the feature behind its own. -/
theorem render_assemble (f : Feature) (s : Scenario) :
    (f.template.assemble s).render
      = f.template.render ++ unlines (s.tagged f.tags).lines := by
  have hlines : (f.template.assemble s).lines
      = f.template.lines ++ (s.tagged f.tags).lines := by
    simp [lines, headLines, assemble, template, Scenario.tagged, Child.lines]
  rw [render_eq, hlines, unlines_append]
  rfl

/-- The block of an assembled part is its scenario, with the tags of the
feature. -/
theorem block_assemble (f : Feature) (s : Scenario) :
    f.block (f.template.assemble s) = unlines (s.tagged f.tags).lines :=
  block_of_render (render_assemble f s)

/-- Every part starts with the text of the template. -/
theorem render_of_mem_split {expand : Bool} {f part : Feature}
    (h : part ∈ f.split expand) :
    part.render = f.template.render ++ f.block part := by
  obtain ⟨s, -, rfl⟩ := List.mem_map.mp h
  rw [block_assemble, render_assemble]

/-! ## All blocks -/

/-- No background stands behind a scenario. -/
def BackgroundsFirst (f : Feature) : Prop :=
  ∃ (shared : List Background) (own : List Scenario),
    f.children = shared.map .background ++ own.map .scenario

/-- Left whole, each scenario makes one part. -/
theorem split_whole (f : Feature) :
    f.split false = f.scenarios.map f.template.assemble := by
  have hself : f.partsOf false = fun s => [f.template.assemble s] :=
    funext fun _ => partsOf_whole (.inl rfl)
  rw [split_eq_flatMap, hself, List.map_eq_flatMap]

/-- The lines of a feature with its backgrounds in front. -/
theorem lines_of_backgrounds_first {f : Feature} (h : f.BackgroundsFirst) :
    f.lines = f.template.lines ++ f.scenarios.flatMap Scenario.lines := by
  obtain ⟨shared, own, hchildren⟩ := h
  have htemplate : f.template.children = shared.map .background := by
    rw [template_children, backgrounds, hchildren]
    simp [List.filterMap_map, Function.comp_def]
  have hscenarios : f.scenarios = own := by
    rw [scenarios, hchildren]
    simp [List.filterMap_map, Function.comp_def]
  have hown : (own.map Child.scenario).flatMap Child.lines
      = own.flatMap Scenario.lines := List.flatMap_map ..
  calc f.lines
      = f.headLines ++ (f.template.children
          ++ own.map Child.scenario).flatMap Child.lines := by
        rw [lines, hchildren, htemplate]
    _ = f.template.lines ++ f.scenarios.flatMap Scenario.lines := by
        rw [List.flatMap_append, ← List.append_assoc, hown, hscenarios]
        rfl

/-- **A feature is its template with all blocks behind one another,** if it
has no tags that its parts would repeat and no background that its
template would move. -/
theorem render_of_backgrounds_first {f : Feature} (htags : f.tags = [])
    (hfirst : f.BackgroundsFirst) : f.render
      = f.template.render ++ String.join ((f.split false).map f.block) := by
  have hblocks : (f.split false).map f.block
      = f.scenarios.map fun s => unlines s.lines := by
    rw [split_whole, List.map_map]
    refine List.map_congr_left fun s _ => ?_
    rw [Function.comp_apply, block_assemble, htags, Scenario.tagged_nil]
  rw [hblocks, ← unlines_flatMap, render_eq, render_eq,
    lines_of_backgrounds_first hfirst, unlines_append]

/-- **The rows of an outline, taken apart.** -/
theorem block_outline {f : Feature} {s : Scenario} {header : Row}
    {body : List Row} {later : List ExampleBlock}
    (h : s.examples = some (⟨header, body⟩ :: later)) : ∃ front,
    (f.partsOf false s).map f.block
      = [front ++ unlines (body.map Row.line)]
    ∧ (f.partsOf true s).map f.block
      = body.map fun row => front ++ unlines [row.line] := by
  refine ⟨unlines ((s.tagged f.tags).frontLines header), ?_, ?_⟩
  · have hlines : (s.tagged f.tags).lines
        = (s.tagged f.tags).frontLines header ++ body.map Row.line := by
      rw [← lines_outline (s.tagged f.tags) header body later, ← h]
      rfl
    rw [partsOf_whole (.inl rfl), List.map_singleton, block_assemble, hlines,
      unlines_append]
  · rw [partsOf_rows h, List.map_map]
    refine List.map_congr_left fun row _ => ?_
    rw [Function.comp_apply, block_assemble, ← unlines_append]
    exact congrArg unlines (lines_outline (s.tagged f.tags) header [row] later)

/-- **Splitting conserves the text of a feature.**  Every part starts with
the text of the template.  Without tags, and with its backgrounds in front,
a feature is that text with the blocks of its parts behind one another,
outlines left whole.  The block of an outline is one front with the lines
of all rows of its first example block behind it; where it is expanded,
each of its parts has the same front and one of these lines, in order. -/
theorem render_conserved (f : Feature) :
    (∀ expand, ∀ part ∈ f.split expand,
      part.render = f.template.render ++ f.block part)
    ∧ (f.tags = [] → f.BackgroundsFirst → f.render
      = f.template.render ++ String.join ((f.split false).map f.block))
    ∧ (∀ expand, f.split expand
      = f.scenarios.flatMap (f.partsOf expand))
    ∧ ∀ s ∈ f.scenarios, ∀ header body later,
      s.examples = some (⟨header, body⟩ :: later) → ∃ front,
        (f.partsOf false s).map f.block
          = [front ++ unlines (body.map Row.line)]
        ∧ (f.partsOf true s).map f.block
          = body.map fun row => front ++ unlines [row.line] :=
  ⟨fun _ _ => render_of_mem_split, render_of_backgrounds_first,
    fun expand => split_eq_flatMap expand f,
    fun _ _ _ _ _ h => block_outline h⟩

namespace Sample

/-- An outline with two rows in its first block, and a later block. -/
def outline : Scenario where
  keyword := "Scenario Outline"
  name := "o"
  tags := [⟨"@t"⟩]
  steps := [⟨"Given ", "a <h>", none⟩]
  examples := some [⟨⟨["h"]⟩, [⟨["1"]⟩, ⟨["2"]⟩]⟩, ⟨⟨["k"]⟩, [⟨["3"]⟩]⟩]

/-- A feature with a background, a plain scenario and the outline. -/
def mixed : Feature where
  name := "f"
  tags := []
  children := [.background ⟨"Background", "", [⟨"Given ", "b", none⟩]⟩,
    .scenario ⟨"Scenario", "s", [], [⟨"When ", "c", none⟩], none⟩,
    .scenario outline]

end Sample

/-- A feature with three parts when it is expanded. -/
theorem render_conserved_mixed :
    (Sample.mixed.tags = [] ∧ Sample.mixed.BackgroundsFirst
      ∧ Sample.mixed.render = Sample.mixed.template.render
        ++ String.join ((Sample.mixed.split false).map Sample.mixed.block))
    ∧ (Sample.outline ∈ Sample.mixed.scenarios ∧ ∃ front,
        (Sample.mixed.partsOf false Sample.outline).map Sample.mixed.block
          = [front ++ "|1|\n|2|\n"]
        ∧ (Sample.mixed.partsOf true Sample.outline).map Sample.mixed.block
          = [front ++ "|1|\n", front ++ "|2|\n"])
    ∧ ∃ part ∈ Sample.mixed.split true, part.render
      = Sample.mixed.template.render ++ Sample.mixed.block part := by
  obtain ⟨hpart, hwhole, -, hrows⟩ := render_conserved Sample.mixed
  have hfirst : Sample.mixed.BackgroundsFirst :=
    ⟨[⟨"Background", "", [⟨"Given ", "b", none⟩]⟩],
      [⟨"Scenario", "s", [], [⟨"When ", "c", none⟩], none⟩, Sample.outline],
      rfl⟩
  have hmem : Sample.outline ∈ Sample.mixed.scenarios := by decide
  obtain ⟨part, hpart'⟩ :=
    List.exists_mem_of_length_pos (l := Sample.mixed.split true) (by decide)
  exact ⟨⟨rfl, hfirst, hwhole rfl hfirst⟩, ⟨hmem, hrows _ hmem _ _ _ rfl⟩,
    part, hpart', hpart true part hpart'⟩

end Feature

end SoloScenario
