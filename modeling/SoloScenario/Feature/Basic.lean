/-!
# Features

The tree of a feature file, as far as splitting and writing it needs:
descriptions, comments and the names of example sections are not part of
it.  A feature holds its children in source order; a child is a
background or a scenario.

A scenario with example blocks is an **outline**: one field tells the two
apart (`Scenario.examples`), so that everything that concerns both is
said once.
-/

namespace SoloScenario

/-- A tag; the leading `@` is part of its name. -/
structure Tag where
  name : String
deriving DecidableEq, Repr

/-- The tag with this name, which gets its `@` if it has none. -/
def Tag.ofName (name : String) : Tag :=
  if name.toList.head? = some '@' then ⟨name⟩ else ⟨"@" ++ name⟩

/-- A row of a table. -/
structure Row where
  cells : List String
deriving DecidableEq, Repr

/-- What a step may carry below its line. -/
inductive StepArgument where
  | table (rows : List Row)
  | docString (content : String)
deriving DecidableEq, Repr

/-- A step.  The keyword includes the separator behind it, so that
keyword and text together are the step's line. -/
structure Step where
  keyword : String
  text : String
  argument : Option StepArgument
deriving DecidableEq, Repr

/-- The steps that every scenario of a feature starts with. -/
structure Background where
  keyword : String
  name : String
  steps : List Step
deriving DecidableEq, Repr

/-- The rows that an outline is run for, under their header. -/
structure ExampleBlock where
  header : Row
  body : List Row
deriving DecidableEq, Repr

/-- A block with no table. -/
def ExampleBlock.empty : ExampleBlock :=
  ⟨⟨[]⟩, []⟩

/-- A scenario.  `examples` is `none` for a plain scenario, and holds the
example blocks of an outline; only the first of them is ever read. -/
structure Scenario where
  keyword : String
  name : String
  tags : List Tag
  steps : List Step
  examples : Option (List ExampleBlock)
deriving DecidableEq, Repr

/-- Anything directly under a feature. -/
inductive Child where
  | background (b : Background)
  | scenario (s : Scenario)
deriving DecidableEq, Repr

/-- The scenario that a child is, if it is one. -/
def Child.scenario? : Child → Option Scenario
  | .background _ => none
  | .scenario s => some s

/-- The background that a child is, if it is one. -/
def Child.background? : Child → Option Background
  | .background b => some b
  | .scenario _ => none

/-- A feature: its name, its own tags and its children. -/
structure Feature where
  name : String
  tags : List Tag
  children : List Child
deriving DecidableEq, Repr

namespace Feature

/-- The scenarios of a feature, in order. -/
def scenarios (f : Feature) : List Scenario :=
  f.children.filterMap Child.scenario?

/-- The first background of a feature. -/
def background? (f : Feature) : Option Background :=
  f.children.findSome? Child.background?

end Feature

end SoloScenario
