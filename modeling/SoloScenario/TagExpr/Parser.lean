import SoloScenario.TagExpr.Basic
import SoloScenario.TagExpr.Scan

/-!
# Reading a tag expression

`not` binds tighter than `and`, and `and` tighter than `or`; chains group
to the left, and parentheses override.  The reader goes through the
tokens once, from left to right, and keeps for every parenthesis that is
still open a `Level`: the part of the expression there that is already
fixed.

* `State.step` — one token: the next state, or why the token cannot stand
  there;
* `State.finish` — the end of the text: the expression, or what is
  missing;
* `parse` — the expression that a text spells, or the first fault.  A
  fault inside a token counts where that token is reached.
-/

namespace SoloScenario.TagExpr

/-- One nesting level while it is read: what stands left of its last
`or`, what stands left of the last `and` behind that, and how many `not`s
wait for an operand. -/
structure Level where
  disjunct : Option TagExpr
  conjunct : Option TagExpr
  negations : Nat
deriving DecidableEq, Repr

namespace Level

/-- A level with nothing read. -/
def empty : Level :=
  ⟨none, none, 0⟩

/-- An operand under the `not`s that wait for it. -/
def negate : Nat → TagExpr → TagExpr
  | 0, e => e
  | n + 1, e => .not (negate n e)

/-- The last conjunction of the level, closed by the operand `e`. -/
def conjunction (l : Level) (e : TagExpr) : TagExpr :=
  match l.conjunct with
  | none => negate l.negations e
  | some left => .and left (negate l.negations e)

/-- The whole level, closed by the operand `e`. -/
def value (l : Level) (e : TagExpr) : TagExpr :=
  match l.disjunct with
  | none => l.conjunction e
  | some left => .or left (l.conjunction e)

end Level

/-- What stands before the place of an operand. -/
inductive Before where
  /-- Nothing: the text starts here. -/
  | start
  /-- An opening parenthesis, at this byte. -/
  | paren (offset : Nat)
  /-- An operator. -/
  | operator (op : Operator)
deriving DecidableEq, Repr

/-- What the reader is waiting for: an operand, or what may follow the
operand that it holds. -/
inductive Phase where
  | wanting (before : Before)
  | holding (operand : TagExpr)
deriving DecidableEq, Repr

/-- The reader between two tokens.  `outer` holds the levels around the
current one, the innermost first, each with the byte of the parenthesis
that interrupted it. -/
structure State where
  outer : List (Nat × Level)
  level : Level
  phase : Phase
deriving DecidableEq, Repr

namespace State

/-- The reader before the first token. -/
def initial : State :=
  ⟨[], .empty, .wanting .start⟩

/-- The error for a token that is no start of an operand. -/
def refuse (before : Before) (start : Nat) (t : Token) : SyntaxError :=
  match before, t with
  | .operator op, _ => ⟨start, .operandExpectedAfter op⟩
  | .paren offset, .closeParen => ⟨offset, .emptyParentheses⟩
  | _, _ => ⟨start, .operandExpectedBut t⟩

/-- The error for a token that cannot follow an operand: inside
parentheses one of them is unclosed, outside the token is too much. -/
def excess (outer : List (Nat × Level)) (start : Nat) (t : Token) :
    SyntaxError :=
  match outer with
  | [] => ⟨start, .unexpectedToken t⟩
  | (offset, _) :: _ => ⟨offset, .missingParenthesis⟩

/-- One token where an operand should start. -/
def wantOperand (s : State) (before : Before) (start : Nat) (t : Token) :
    Except SyntaxError State :=
  match t with
  | .tag name => .ok { s with phase := .holding (.tag name) }
  | .openParen =>
    .ok ⟨(start, s.level) :: s.outer, .empty, .wanting (.paren start)⟩
  | .operator .not =>
    .ok { s with
      level := { s.level with negations := s.level.negations + 1 }
      phase := .wanting (.operator .not) }
  | t => .error (refuse before start t)

/-- One token behind the operand `e`. -/
def afterOperand (s : State) (e : TagExpr) (start : Nat) (t : Token) :
    Except SyntaxError State :=
  match t, s.outer with
  | .operator .and, _ =>
    .ok { s with
      level := ⟨s.level.disjunct, some (s.level.conjunction e), 0⟩
      phase := .wanting (.operator .and) }
  | .operator .or, _ =>
    .ok { s with
      level := ⟨some (s.level.value e), none, 0⟩
      phase := .wanting (.operator .or) }
  | .closeParen, (_, level) :: outer =>
    .ok ⟨outer, level, .holding (s.level.value e)⟩
  | t, outer => .error (excess outer start t)

/-- One token. -/
def step (s : State) (placed : Nat × Token) : Except SyntaxError State :=
  match s.phase with
  | .wanting before => s.wantOperand before placed.1 placed.2
  | .holding e => s.afterOperand e placed.1 placed.2

/-- The end of the text, at byte `offset`. -/
def finish (s : State) (offset : Nat) : Except SyntaxError TagExpr :=
  match s.phase, s.outer with
  | .wanting (.operator op), _ => .error ⟨offset, .operandExpectedAfter op⟩
  | .wanting _, _ => .error ⟨offset, .operandExpected⟩
  | .holding e, [] => .ok (s.level.value e)
  | .holding _, (start, _) :: _ => .error ⟨start, .missingParenthesis⟩

end State

/-- The expression that the tokens of a scan spell. -/
def ofScan (s : Scan) : Except SyntaxError TagExpr := do
  let state ← s.tokens.foldlM State.step State.initial
  state.finish (← s.ending)

/-- The expression that a text spells. -/
def parse (text : String) : Except SyntaxError TagExpr :=
  ofScan (scan text.toList)

end SoloScenario.TagExpr
