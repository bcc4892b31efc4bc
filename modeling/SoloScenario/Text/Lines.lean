/-!
# Line breaks

A line ends at a line feed, or at a carriage return with a line feed
behind it; a carriage return elsewhere is an ordinary character.

* `atBreak?` — the text behind a line break, if there is one here;
* `spanLine` — a text cut at its first line break;
* `lines` — a text as its lines, without their breaks;
* `spanLine_append` — the cut loses nothing;
* `length_atBreak_lt` — a break has at least one character.
-/

namespace SoloScenario.Text

/-- The text behind the line break that `s` starts with. -/
def atBreak? : List Char → Option (List Char)
  | '\n' :: s => some s
  | '\r' :: '\n' :: s => some s
  | _ => none

/-- The part of `s` before its first line break, and the rest from that
break on. -/
def spanLine : List Char → List Char × List Char
  | [] => ([], [])
  | c :: s =>
    if (atBreak? (c :: s)).isSome then ([], c :: s)
    else (c :: (spanLine s).1, (spanLine s).2)

/-- The lines of `s`, without their breaks.  Text behind the last break
is a line of its own unless it is empty. -/
def lines : List Char → List (List Char)
  | [] => []
  | '\n' :: s => [] :: lines s
  | '\r' :: '\n' :: s => [] :: lines s
  | c :: s =>
    match lines s with
    | [] => [[c]]
    | l :: ls => (c :: l) :: ls

/-- Whether the last character is a line feed. -/
def endsInBreak (s : List Char) : Bool :=
  s.getLast? == some '\n'

/-- Cutting at the first line break loses nothing. -/
theorem spanLine_append (s : List Char) :
    (spanLine s).1 ++ (spanLine s).2 = s := by
  induction s with
  | nil => rfl
  | cons c s ih =>
      rw [spanLine]
      split
      · rfl
      · simp [ih]

/-- Cutting at the first line break never lengthens the text. -/
theorem length_spanLine_le (s : List Char) :
    (spanLine s).2.length ≤ s.length := by
  have h := congrArg List.length (spanLine_append s)
  simp only [List.length_append] at h
  omega

/-- A line break takes something off the text. -/
theorem length_atBreak_lt {s r : List Char} (h : atBreak? s = some r) :
    r.length < s.length := by
  unfold atBreak? at h
  split at h <;> simp only [Option.some.injEq, reduceCtorEq] at h <;>
    simp only [← h, List.length_cons] <;> omega

end SoloScenario.Text
