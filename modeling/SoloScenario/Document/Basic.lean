import SoloScenario.Feature.Basic

/-!
# A feature file as it is read

A **document** keeps what a feature file says about its structure: the
feature's background and scenarios, and its rules, which group scenarios
under tags and a background of their own.  `Feature` has no rules, so
`Document.toFeature` hands them down:

* a rule's tags go behind the own tags of each of its scenarios;
* the steps of a rule's background go before the scenario's own steps;
* the scenarios of the feature come first, then those of each rule.

A scenario becomes an outline when it has an example section.
-/

namespace SoloScenario

namespace Document

/-- The table of an example section, if it has one. -/
structure Examples where
  table : Option (List Row)
deriving DecidableEq, Repr

/-- A scenario as it is read; its tags are without `@`. -/
structure Scenario where
  keyword : String
  name : String
  tags : List String
  steps : List Step
  examples : List Examples
deriving DecidableEq, Repr

/-- A group of scenarios with tags and a background of their own. -/
structure Rule where
  tags : List String
  background : Option Background
  scenarios : List Scenario
deriving DecidableEq, Repr

end Document

/-- A feature file as it is read; the feature's tags are without `@`. -/
structure Document where
  name : String
  tags : List String
  background : Option Background
  scenarios : List Document.Scenario
  rules : List Document.Rule
deriving DecidableEq, Repr

namespace Document

/-- The first row of a table is its header. -/
def Examples.toBlock (e : Examples) : ExampleBlock :=
  match e.table with
  | some (header :: body) => ⟨header, body⟩
  | _ => .empty

/-- A scenario that inherits tags and steps. -/
def Scenario.inherit (tags : List Tag) (steps : List Step) (s : Scenario) :
    SoloScenario.Scenario where
  keyword := s.keyword
  name := s.name
  tags := s.tags.map Tag.ofName ++ tags
  steps := steps ++ s.steps
  examples :=
    if s.examples.isEmpty then none else some (s.examples.map Examples.toBlock)

/-- The steps that a rule's scenarios start with. -/
def Rule.steps (r : Rule) : List Step :=
  (r.background.map Background.steps).getD []

/-- The scenarios of a rule, with what the rule hands down. -/
def Rule.inherited (r : Rule) : List SoloScenario.Scenario :=
  r.scenarios.map (Scenario.inherit (r.tags.map Tag.ofName) r.steps)

/-- All scenarios of a document, in order. -/
def allScenarios (d : Document) : List SoloScenario.Scenario :=
  d.scenarios.map (Scenario.inherit [] []) ++ d.rules.flatMap Rule.inherited

/-- The document as a feature. -/
def toFeature (d : Document) : Feature where
  name := d.name
  tags := d.tags.map Tag.ofName
  children :=
    d.background.toList.map Child.background
      ++ d.allScenarios.map Child.scenario

end Document

end SoloScenario
