import SoloScenario.Grammar.Keyword
import SoloScenario.Feature.Basic

/-!
# Tables

A row is written between bars, and a cell runs up to the next bar on the
same line; nothing is escaped.  The first row fixes the width: what later
rows have beyond it is cut off, and a row that is shorter dooms the text.
-/

namespace SoloScenario.Grammar

open Reader

/-- The part of `s` before the next bar or line break, and the rest. -/
def spanCell : List Char → List Char × List Char
  | [] => ([], [])
  | c :: s =>
    if c == '|' || (Text.atBreak? (c :: s)).isSome then ([], c :: s)
    else (c :: (spanCell s).1, (spanCell s).2)

/-- The text of a cell, without blanks at its ends. -/
def cellText : Reader String := fun s =>
  let cell := spanCell s
  ⟨some (String.ofList (Text.trim cell.1), cell.2),
    if cell.2.isEmpty then .failedAt 0 else .none⟩

/-- A bar and the cell behind it.  A bar at the end of a line has no cell
behind it. -/
def cell : Reader String := do
  literal "|"
  skip skipSpaces
  unlessAt fun s => s.isEmpty || (Text.atBreak? s).isSome
  cellText

/-- A row with the bar that closes it. -/
def row : Reader (List String) := do
  let cells ← chain skipSpaces cell cell
  skip skipSpaces
  literal "|"
  skip skipSpaces
  pass atLineEnd?
  give cells

/-- Rows as wide as the first one, or nothing if one of them is shorter. -/
def level? : List (List String) → Option (List Row)
  | [] => some []
  | first :: later =>
    if later.any fun cells => cells.length < first.length then none
    else some ((first :: later).map fun cells => ⟨cells.take first.length⟩)

/-- A table: at least one row. -/
def table : Reader (List Row) := do
  skip skipSpaces
  let first ← row
  let later ← many (do skip skipSpaces; row)
  match level? (first :: later) with
  | some rows => give rows
  | none => doom

end SoloScenario.Grammar
