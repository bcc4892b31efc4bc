import SoloScenario.Text.Blank

/-!
# Escapes in a written tag

A tag is written up to the next blank or parenthesis.  A backslash makes
the character behind it part of the tag, whatever it is, so a tag may
hold blanks, parentheses and backslashes.

* `escape`, `unescape?` — writing and reading the characters of a tag;
* `spanTag` — the written tag at the start of a text, and the rest;
* `unescape?_escape` — reading gives back what was written.
-/

namespace SoloScenario.TagExpr

/-- Whether `c` ends a tag when no backslash stands before it. -/
def endsTag (c : Char) : Bool :=
  Text.isBlank c || c == '(' || c == ')'

/-- Puts a backslash before each character that needs one. -/
def escape : List Char → List Char
  | [] => []
  | c :: s =>
    if endsTag c || c == '\\' then '\\' :: c :: escape s else c :: escape s

/-- Takes the escapes out again; `none` for a backslash with nothing
behind it. -/
def unescape? : List Char → Option (List Char)
  | [] => some []
  | ['\\'] => none
  | '\\' :: c :: s => (unescape? s).map (c :: ·)
  | c :: s => (unescape? s).map (c :: ·)

/-- The written tag at the start of a text, escapes included, and the
rest from the character that ends it. -/
def spanTag : List Char → List Char × List Char
  | [] => ([], [])
  | '\\' :: c :: s => ('\\' :: c :: (spanTag s).1, (spanTag s).2)
  | c :: s =>
    if endsTag c then ([], c :: s) else (c :: (spanTag s).1, (spanTag s).2)

/-- Reading the escapes of a written tag gives its characters back. -/
theorem unescape?_escape (s : List Char) : unescape? (escape s) = some s := by
  induction s with
  | nil => rfl
  | cons c s ih =>
      rw [escape]
      split
      · simp [unescape?, ih]
      · next h =>
          have hc : c ≠ '\\' := by rintro rfl; simp at h
          rw [unescape?.eq_4 c _ (fun h _ => hc h) (fun _ _ h _ => hc h)]
          simp [ih]

/-- The written tag and the rest make up the text. -/
theorem spanTag_append (s : List Char) :
    (spanTag s).1 ++ (spanTag s).2 = s := by
  fun_induction spanTag s with
  | case1 => rfl
  | case2 c s ih => simp [ih]
  | case3 => rfl
  | case4 c s _ _ ih => simp [ih]

end SoloScenario.TagExpr
