import SoloScenario.Feature.Basic

/-!
# Splitting a feature into features of one scenario

* `Feature.template` — what all parts share: name, tags, backgrounds;
* `Scenario.variants` — the scenarios that one scenario becomes: itself,
  or, for an outline that is expanded, one copy per row of its first
  example block, so none if it has no such row;
* `Feature.assemble` — the template with one scenario, which takes on the
  feature's tags behind its own;
* `Feature.split` — one assembled feature per variant, in order.
-/

namespace SoloScenario

/-- One copy of an outline's blocks for each row of the first of them;
the copy has that row alone there. -/
def rowBlocks : List ExampleBlock → List (List ExampleBlock)
  | [] => []
  | block :: later =>
    block.body.map fun row => { block with body := [row] } :: later

/-- The scenarios that a scenario becomes. -/
def Scenario.variants (expand : Bool) (s : Scenario) : List Scenario :=
  match expand, s.examples with
  | true, some blocks =>
    (rowBlocks blocks).map fun copy => { s with examples := some copy }
  | _, _ => [s]

/-- The scenarios that a list of children becomes. -/
def variantsOf (expand : Bool) (children : List Child) : List Scenario :=
  (children.filterMap Child.scenario?).flatMap (Scenario.variants expand)

namespace Feature

/-- The feature without its scenarios. -/
def template (f : Feature) : Feature :=
  { f with children := f.children.filter (Child.background? · |>.isSome) }

/-- The template with one scenario behind its children.  The scenario
keeps its own tags and gets those of the template behind them, repeated
or not. -/
def assemble (template : Feature) (s : Scenario) : Feature :=
  { template with
    children := template.children
      ++ [.scenario { s with tags := s.tags ++ template.tags }] }

/-- The features of one scenario each that a feature is split into. -/
def split (expand : Bool) (f : Feature) : List Feature :=
  (variantsOf expand f.children).map f.template.assemble

end Feature

end SoloScenario
