import SoloScenario.Dialect.Table
import SoloScenario.Document.Basic
import SoloScenario.Grammar.Step

/-!
# Sections

The sections of a feature file, from tags and descriptions up to the
whole `document`.  Comments may stand in front of any keyword, and in front of
the tags of a scenario or an example section as well.

A description is any text below a heading; it runs up to the first line
that starts with a tag or with one of the words that may follow there.  A
`# language:` line at the top switches to the dialect it names.
-/

namespace SoloScenario.Grammar

open Reader

/-- The dialect that a `# language:` line names.  A code that nothing is
known about dooms the text. -/
def languageLine : Reader Dialect := do
  skip skipBlankLines
  literal "#"
  skip skipSpaces
  literal "language"
  skip skipSpaces
  literal ":"
  skip skipSpaces
  let code ← restOfLine
  skip skipSpaces
  pass atNewline?
  match Dialect.find? (String.ofList code) with
  | some d => give d
  | none => doom

/-- The characters of a tag, at least one, up to the next blank or
`@`. -/
def tagName : Reader String := fun s =>
  let stops := fun c => Text.isBlank c || c == '@'
  let name := s.takeWhile (!stops ·)
  let behind := s.dropWhile (!stops ·)
  ⟨if name.isEmpty then none else some (String.ofList name, behind),
    .failedAt (behind.length - 1)⟩

/-- A tag, without its `@`. -/
def tag : Reader String := do
  literal "@"
  tagName

/-- Tags, of which there may be none. -/
def tags : Reader (List String) := do
  let found ← chain skipGap tag tag
  skip skipSpaces
  skip skipNewlines
  give found

/-- A line of a description. -/
def descriptionLine (stops : List String) : Reader Unit := do
  skip skipSpaces
  notAhead (literal "@")
  notAhead (keyword stops)
  skip skipSpaces
  let _ ← restOfLine
  pass atLineEnd?

/-- A description, which may be empty. -/
def description (stops : List String) : Reader Unit := do
  let _ ← chain skipSpaces (descriptionLine stops) (descriptionLine stops)
  skip skipGap

/-- A background. -/
def background (d : Dialect) : Reader Background := do
  skip skipComments
  skip skipSpaces
  let (found, name) ← heading d.background
  description d.scenarioStops
  let body ← steps d
  give ⟨found, name, body⟩

/-- An example section. -/
def examples (d : Dialect) : Reader Document.Examples := do
  skip skipComments
  skip skipSpaces
  let _ ← tags
  skip skipSpaces
  let _ ← heading d.examples
  description d.examplesStops
  let rows ← optional table
  give ⟨rows⟩

/-- A scenario under one of these words. -/
def scenarioWith (d : Dialect) (words : List String) :
    Reader Document.Scenario := do
  skip skipComments
  skip skipSpaces
  let own ← tags
  skip skipSpaces
  let (found, name) ← heading words
  description d.scenarioStops
  let body ← steps d
  let sections ← many (examples d)
  give ⟨found, name, own, body, sections⟩

/-- A scenario. -/
def scenario (d : Dialect) : Reader Document.Scenario :=
  scenarioWith d d.scenario <|> scenarioWith d d.outline

/-- Scenarios, of which there may be none. -/
def scenarios (d : Dialect) : Reader (List Document.Scenario) := do
  skip skipSpaces
  chain skipSpaces (scenario d) (scenario d)

/-- A rule. -/
def rule (d : Dialect) : Reader Document.Rule := do
  skip skipSpaces
  let own ← tags
  skip skipSpaces
  let _ ← heading d.rule
  description d.ruleStops
  let shared ← optional (background d)
  skip skipNewlines
  let body ← scenarios d
  skip skipNewlines
  give ⟨own, shared, body⟩

/-- Rules, of which there may be none. -/
def rules (d : Dialect) : Reader (List Document.Rule) := do
  skip skipSpaces
  chain skipSpaces (rule d) (rule d)

/-- What follows the language line. -/
def body (d : Dialect) : Reader Document := do
  skip skipNewlines
  let own ← tags
  let (_, name) ← heading d.feature
  description d.featureStops
  let shared ← optional (background d)
  skip skipNewlines
  let top ← scenarios d
  skip skipNewlines
  let groups ← rules d
  skip skipNewlines
  give ⟨name, own, shared, top, groups⟩

/-- A whole document; `d` is its dialect unless it names another. -/
def document (d : Dialect) : Reader Document := do
  skip skipSpaces
  let named ← optional languageLine
  body (named.getD d)

end SoloScenario.Grammar
