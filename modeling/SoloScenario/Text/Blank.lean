/-!
# Blank characters and trimming

A character is **blank** when Unicode gives it the property
White_Space.  Names, step texts, table cells and tag expressions are all
trimmed and separated by this one class, so it lives here with the three
ways of trimming by it:

* `trimStart`, `trimEnd`, `trim` — drop the blanks at the start, at the
  end, at both ends;
* `isAllBlank` — nothing but blanks (the empty text included);
* `trimEnd_append_blank` — a blank added at the end is trimmed again.
-/

namespace SoloScenario.Text

/-- The code points with the property White_Space, as ranges with both
ends included. -/
def blankRanges : List (Nat × Nat) :=
  [(0x09, 0x0D), (0x20, 0x20), (0x85, 0x85), (0xA0, 0xA0),
   (0x1680, 0x1680), (0x2000, 0x200A), (0x2028, 0x2029),
   (0x202F, 0x202F), (0x205F, 0x205F), (0x3000, 0x3000)]

/-- Whether `c` has the property White_Space. -/
def isBlank (c : Char) : Bool :=
  blankRanges.any fun (low, high) => low ≤ c.toNat && c.toNat ≤ high

/-- Whether a text holds nothing but blanks. -/
def isAllBlank (s : List Char) : Bool :=
  s.all isBlank

/-- Drops the blanks at the start. -/
def trimStart (s : List Char) : List Char :=
  s.dropWhile isBlank

/-- Drops the blanks at the end. -/
def trimEnd : List Char → List Char
  | [] => []
  | c :: s =>
    match trimEnd s with
    | [] => if isBlank c then [] else [c]
    | t => c :: t

/-- Drops the blanks at both ends. -/
def trim (s : List Char) : List Char :=
  trimEnd (trimStart s)

/-- The blanks of ASCII are the five controls from tab to carriage
return, and the space. -/
theorem isBlank_ascii {c : Char} (h : c.toNat < 0x80) :
    isBlank c = true ↔ (0x09 ≤ c.toNat ∧ c.toNat ≤ 0x0D) ∨ c.toNat = 0x20 := by
  simp only [isBlank, blankRanges, List.any_cons, List.any_nil,
    Bool.or_eq_true, Bool.and_eq_true, decide_eq_true_eq, Bool.or_false]
  omega

/-- A blank after the last kept character is dropped. -/
theorem trimEnd_append_blank (s : List Char) {c : Char}
    (h : isBlank c = true) : trimEnd (s ++ [c]) = trimEnd s := by
  induction s with
  | nil => simp [trimEnd, h]
  | cons d s ih => simp [trimEnd, ih]

end SoloScenario.Text
