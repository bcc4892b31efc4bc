import SoloScenario.Grammar.Gap
import SoloScenario.Grammar.Reader
import SoloScenario.Text.Blank

/-!
# Keywords and the rest of a line

* `keyword` — one of a list of words, after any comments;
* `lineText` — the rest of the line, if there is any;
* `heading` — a keyword, a colon and a name that may be missing.

Looking for a keyword looks at as many characters as the longest word
has, found or not, so a failure counts as having got that far.
-/

namespace SoloScenario.Grammar

open Reader

/-- The number of characters of the longest of some words. -/
def longest (words : List String) : Nat :=
  (words.map String.length).foldl max 0

/-- The first word of the list that the text starts with. -/
def word (words : List String) : Reader String := fun s =>
  ⟨(words.find? fun w => w.toList.isPrefixOf s).map fun w =>
      (w, s.drop w.length),
    .failedAt (s.length - longest words)⟩

/-- A word of the list, after any comments. -/
def keyword (words : List String) : Reader String := do
  skip skipComments
  word words

/-- The text up to the end of the line, which may not be empty. -/
def restOfLine : Reader (List Char) := fun s =>
  let line := Text.spanLine s
  ⟨if line.1.isEmpty then none else some line,
    if line.2.isEmpty then .failedAt 0 else .none⟩

/-- The text up to the end of the line, without the blanks at its end. -/
def lineText : Reader String := do
  give (String.ofList (Text.trimEnd (← restOfLine)))

/-- A section's keyword, a colon, and the name behind it up to the end of
the line. -/
def heading (words : List String) : Reader (String × String) := do
  let found ← keyword words
  literal ":"
  skip skipSpaces
  let name ← optional lineText
  skip skipSpaces
  pass atLineEnd?
  give (found, name.getD "")

end SoloScenario.Grammar
