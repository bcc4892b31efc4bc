import SoloScenario.Text.Pieces

/-!
# Patterns for paths

A pattern is a path whose components may have wildcards:

* `?` stands for any character, `*` for any run of characters;
* `[…]` stands for one of the characters listed, or of the ranges such as
  `a-z`; `[!…]` for any other.  The first character listed may be a
  bracket, and a dash that cannot be part of a range is itself;
* `**`, as a whole component, stands for any number of directories.

Everything else stands for itself, and case counts.

`Pattern.ofText` reads a pattern.  The whole text is checked first, then
each component by itself, so a bracket that closes only behind a slash is
an error too.  The position of an error is counted in characters from the
start of what was being checked.
-/

namespace SoloScenario.Files

namespace Pattern

/-- What is wrong with a pattern. -/
inductive Fault where
  | tooManyStars
  | starsInComponent
  | openRange
deriving DecidableEq, Repr

/-- The wording of a fault. -/
def Fault.reason : Fault → String
  | .tooManyStars => "wildcards are either regular `*` or recursive `**`"
  | .starsInComponent =>
    "recursive wildcards must form a single path component"
  | .openRange => "invalid range pattern"

/-- A fault and where it is. -/
structure SyntaxError where
  position : Nat
  fault : Fault
deriving DecidableEq, Repr

/-- The wording of an error. -/
def SyntaxError.reason (e : SyntaxError) : String :=
  "Pattern syntax error near position " ++ toString e.position ++ ": "
    ++ e.fault.reason

/-- A range of characters, ends included. -/
structure CharRange where
  low : Char
  high : Char
deriving DecidableEq, Repr

/-- Whether a character is in a range. -/
def CharRange.contains (r : CharRange) (c : Char) : Bool :=
  r.low ≤ c && c ≤ r.high

/-- One element of a pattern. -/
inductive Token where
  | literal (c : Char)
  | anyChar
  | anyRun
  | oneOf (ranges : List CharRange)
  | noneOf (ranges : List CharRange)
  | anyDepth
deriving DecidableEq, Repr

/-- The ranges listed between brackets. -/
def ranges : List Char → List CharRange
  | low :: '-' :: high :: s => ⟨low, high⟩ :: ranges s
  | c :: s => ⟨c, c⟩ :: ranges s
  | [] => []

/-- The list of a bracket and what is behind the closing one.  The list
is not empty. -/
def bracketList? : List Char → Option (List Char × List Char)
  | [] => none
  | c :: s =>
    if ']' ∈ s then
      some (c :: s.takeWhile (· ≠ ']'), (s.dropWhile (· ≠ ']')).drop 1)
    else none

/-- The token of the bracket whose inside is at the front of a text, and
what is behind it. -/
def bracket? : List Char → Option (Token × List Char)
  | '!' :: s =>
    (bracketList? s).map fun (list, rest) => (.noneOf (ranges list), rest)
  | s => (bracketList? s).map fun (list, rest) => (.oneOf (ranges list), rest)

/-- A bracketed list takes something off the pattern. -/
private theorem length_bracketList_lt {s list rest : List Char}
    (h : bracketList? s = some (list, rest)) : rest.length < s.length := by
  cases s with
  | nil => simp [bracketList?] at h
  | cons c s =>
      simp only [bracketList?] at h
      split at h
      · simp only [Option.some.injEq, Prod.mk.injEq] at h
        rw [← h.2]
        have := (List.dropWhile_suffix (l := s) (· ≠ ']')).length_le
        simp only [List.length_drop, List.length_cons]
        omega
      · simp at h

/-- A bracket takes something off the text. -/
theorem length_bracket_lt {s rest : List Char} {t : Token}
    (h : bracket? s = some (t, rest)) : rest.length < s.length := by
  unfold bracket? at h
  split at h <;>
    obtain ⟨⟨list, r⟩, hl, he⟩ := Option.map_eq_some_iff.mp h <;>
    simp only [Prod.mk.injEq] at he <;> rw [← he.2]
  · exact Nat.lt_succ_of_lt (length_bracketList_lt hl)
  · exact length_bracketList_lt hl

/-- The tokens of a text that starts at a position, behind the character
`before` if there is one. -/
def tokens (position : Nat) (before : Option Char) :
    List Char → Except SyntaxError (List Token)
  | [] => .ok []
  | c :: s =>
    if c = '*' then
      match s with
      | '*' :: '*' :: _ => .error ⟨position + 2, .tooManyStars⟩
      | '*' :: rest =>
        if before.isSome ∧ before ≠ some '/' then
          .error ⟨position - 1, .starsInComponent⟩
        else
          match rest with
          | [] => .ok [.anyDepth]
          | '/' :: rest =>
            (tokens (position + 3) (some '/') rest).map (.anyDepth :: ·)
          | _ => .error ⟨position + 2, .starsInComponent⟩
      | s => (tokens (position + 1) (some '*') s).map (.anyRun :: ·)
    else if c = '?' then
      (tokens (position + 1) (some '?') s).map (.anyChar :: ·)
    else if c = '[' then
      match _h : bracket? s with
      | none => .error ⟨position, .openRange⟩
      | some (t, rest) =>
        let behind := position + 1 + (s.length - rest.length)
        (tokens behind (some ']') rest).map (t :: ·)
    else (tokens (position + 1) (some c) s).map (.literal c :: ·)
termination_by s => s.length
decreasing_by
  all_goals simp only [List.length_cons]
  all_goals first
    | omega
    | exact Nat.lt_trans (length_bracket_lt _h) (Nat.lt_succ_self _)

/-- Whether a token stands for a character. -/
def Token.accepts (c : Char) : Token → Bool
  | .literal d => c == d
  | .anyChar => true
  | .oneOf rs => rs.any (·.contains c)
  | .noneOf rs => !rs.any (·.contains c)
  | .anyRun | .anyDepth => false

/-- All ends of a text, itself and the empty one included. -/
def suffixes : List Char → List (List Char)
  | [] => [[]]
  | c :: s => (c :: s) :: suffixes s

/-- What may be left of a name behind a token, where `rests` may be left
before it.  The rests come longest first, so each is an end of the first,
and a run of any characters leaves the ends of that one. -/
def Token.behind (rests : List (List Char)) : Token → List (List Char)
  | .anyRun => (rests.head?.map suffixes).getD []
  | t => rests.filterMap fun rest =>
      match rest with
      | [] => none
      | c :: s => if t.accepts c then some s else none

/-- Whether tokens stand for a name: nothing of it may be left behind
them. -/
def fits (ts : List Token) (name : List Char) : Bool :=
  (ts.foldl Token.behind [name]).contains []

/-- The text of tokens that all stand for themselves. -/
def literalText? (ts : List Token) : Option String :=
  (ts.mapM fun t =>
    match t with
    | Token.literal c => some c
    | _ => none).map String.ofList

end Pattern

/-- A pattern: whether it starts at the root, its components, and whether
a slash at its end asks for directories. -/
structure Pattern where
  fromRoot : Bool
  components : List (List Pattern.Token)
  wantsDirectory : Bool
deriving DecidableEq, Repr

namespace Pattern

/-- Whether a component stands for any number of directories. -/
def isAnyDepth (component : List Token) : Bool :=
  component == [.anyDepth]

/-- The texts of the components.  A slash at the end starts no further
component, but a text with nothing else has one, which is empty. -/
def componentTexts (s : List Char) : List (List Char) :=
  match Text.pieces '/' s with
  | [] => [[]]
  | [p] => [p]
  | ps => if ps.getLast? = some [] then ps.dropLast else ps

/-- The components with a run of `**` reduced to a single one. -/
def collapse : List (List Token) → List (List Token)
  | a :: b :: rest =>
    if isAnyDepth a && isAnyDepth b then collapse (b :: rest)
    else a :: collapse (b :: rest)
  | rest => rest

/-- The pattern that a text spells. -/
def ofText (text : String) : Except SyntaxError Pattern := do
  let s := text.toList
  let _ ← tokens 0 none s
  let fromRoot := s.head? == some '/'
  let inside := if fromRoot then s.drop 1 else s
  let components ← (componentTexts inside).mapM (tokens 0 none)
  return ⟨fromRoot, collapse components, s.getLast? == some '/'⟩

end Pattern

end SoloScenario.Files
