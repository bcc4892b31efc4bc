import SoloScenario.Feature.Basic

/-!
# Features as text

The text is made of lines without indentation, each ended by a line feed:
tags one to a line, headings as keyword, colon and name, steps as keyword
and text, rows between bars, doc strings between triple quotes.  Of an
outline's example blocks only the first is written.  Nothing is escaped.

Everything is said on the level of lines (`Feature.lines`), and
`Feature.render` ends each of them.
-/

namespace SoloScenario

/-- A row between bars. -/
def Row.line (r : Row) : String :=
  "|" ++ String.join (r.cells.map (· ++ "|"))

/-- The line above and below a doc string. -/
def docStringFence : String :=
  "\"\"\""

/-- What stands below a step's line. -/
def StepArgument.lines : StepArgument → List String
  | .table rows => rows.map Row.line
  | .docString content => [docStringFence, content, docStringFence]

/-- A step with what it carries. -/
def Step.lines (s : Step) : List String :=
  (s.keyword ++ s.text) :: (s.argument.map StepArgument.lines).getD []

/-- A section's heading. -/
def headingLine (keyword name : String) : String :=
  keyword ++ ": " ++ name

/-- A background. -/
def Background.lines (b : Background) : List String :=
  headingLine b.keyword b.name :: b.steps.flatMap Step.lines

/-- An example block under its heading, which is the same word in every
dialect. -/
def ExampleBlock.lines (e : ExampleBlock) : List String :=
  "Examples:" :: e.header.line :: e.body.map Row.line

/-- A scenario, with the first of its example blocks if it has any. -/
def Scenario.lines (s : Scenario) : List String :=
  s.tags.map Tag.name
    ++ headingLine s.keyword s.name :: s.steps.flatMap Step.lines
    ++ ((s.examples.bind List.head?).map ExampleBlock.lines).getD []

/-- A child. -/
def Child.lines : Child → List String
  | .background b => b.lines
  | .scenario s => s.lines

namespace Feature

/-- The tags of a feature and its heading. -/
def headLines (f : Feature) : List String :=
  f.tags.map Tag.name ++ [headingLine "Feature" f.name]

/-- All lines of a feature. -/
def lines (f : Feature) : List String :=
  f.headLines ++ f.children.flatMap Child.lines

/-- The text of a feature. -/
def render (f : Feature) : String :=
  String.join (f.lines.map (· ++ "\n"))

end Feature

end SoloScenario
