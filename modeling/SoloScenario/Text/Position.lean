/-!
# Line and column

A place in a text is shown as a line and a column, both counted from one.
Lines are counted by line feeds alone, and columns in code points since
the last of them.
-/

namespace SoloScenario.Text

/-- A line and a column, both from one. -/
structure Position where
  line : Nat
  column : Nat
deriving DecidableEq, Repr

/-- The position one step behind `c`. -/
def Position.after (p : Position) (c : Char) : Position :=
  if c = '\n' then ⟨p.line + 1, 1⟩ else ⟨p.line, p.column + 1⟩

/-- Where the text `s` ends. -/
def Position.ofText (s : List Char) : Position :=
  s.foldl Position.after ⟨1, 1⟩

/-- The place in `s` that has `left` characters behind it. -/
def Position.before (s : List Char) (left : Nat) : Position :=
  .ofText (s.take (s.length - left))

end SoloScenario.Text
