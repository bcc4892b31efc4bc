import SoloScenario.Dialect.Basic
import SoloScenario.Grammar.DocString
import SoloScenario.Grammar.Table

/-!
# Steps

A step is a keyword and a text on one line, with a doc string or a table
below it, or both, of which the table counts.  The first step of a
section cannot start with a word for "and" or "but", unless the same word
also starts another kind of step.

Not every language sets the keyword off with a space, so the step keeps
the separator that its line has: `spelledKeyword` looks at the text where
the step starts.
-/

namespace SoloScenario.Grammar

open Reader

/-- A step's keyword with its separator: a space, unless the source goes
on right behind the keyword.  Where the source does not start with the
keyword, a comment in front of it for instance, a space is assumed. -/
def spelledKeyword (keyword source : List Char) : List Char :=
  let bare := Text.trimEnd keyword
  let text := Text.trimStart source
  match bare.isPrefixOf text, text.drop bare.length with
  | true, c :: _ => if Text.isBlank c then bare ++ [' '] else bare
  | _, _ => bare ++ [' ']

/-- The argument of a step that has this doc string and this table. -/
def argumentOf (content : Option String) (rows : Option (List Row)) :
    Option StepArgument :=
  (rows.map StepArgument.table).or (content.map StepArgument.docString)

/-- A step with one of these words; the text at its start is `source`. -/
def stepAt (source : List Char) (words : List String) : Reader Step := do
  let found ← keyword words
  skip skipSpaces
  let text ← lineText
  skip skipSpaces
  pass atLineEnd?
  skip skipSpaces
  let content ← optional docString
  let rows ← optional table
  give ⟨String.ofList (spelledKeyword found.toList source), text,
    argumentOf content rows⟩

/-- A step with one of these words. -/
def stepWith (words : List String) : Reader Step := do
  stepAt (← ahead) words

/-- A step that continues the one before it. -/
def continuation (first : Bool) (words : List String) : Reader Step := do
  let s ← stepWith words
  if first then decline else give s

/-- A step; `first` says whether it is the first of its section. -/
def step (d : Dialect) (first : Bool) : Reader Step :=
  (do skip skipComments; stepWith d.givenWords)
    <|> stepWith d.whenWords
    <|> stepWith d.thenWords
    <|> continuation first d.andWords
    <|> continuation first d.butWords

/-- The steps of a section, of which there may be none. -/
def steps (d : Dialect) : Reader (List Step) :=
  chain skipSpaces (step d true) (step d false)

end SoloScenario.Grammar
