import SoloScenario.TagExpr.Escape
import SoloScenario.TagExpr.Token

/-!
# Cutting a text into the tokens of a tag expression

A `Cursor` stands at a byte offset with the characters still ahead of it.
`Cursor.next` skips blanks and reads one token, and `scan` repeats it:

* a word is a maximal run of ASCII letters, and has to be one of the
  operators in any mix of cases;
* a tag is `@` and a written name (`spanTag`), which may not be empty;
* a parenthesis is a token by itself, and nothing else starts one.

Every token takes something off the text (`next_shorter`), which is why
the scan ends.
-/

namespace SoloScenario.TagExpr

/-- The number of bytes of a text in UTF-8. -/
def byteLength : List Char → Nat
  | [] => 0
  | c :: s => c.utf8Size + byteLength s

/-- The bytes of two texts in a row. -/
theorem byteLength_append (s r : List Char) :
    byteLength (s ++ r) = byteLength s + byteLength r := by
  induction s with
  | nil => simp [byteLength]
  | cons c s ih =>
      rw [List.cons_append, byteLength, ih, byteLength, Nat.add_assoc]

/-- The number of bytes of a text is its size. -/
theorem byteLength_eq (s : List Char) :
    byteLength s = (String.ofList s).utf8ByteSize := by
  induction s with
  | nil => rfl
  | cons c s ih =>
      rw [byteLength, ih, String.ofList_cons, String.utf8ByteSize_append,
        String.utf8ByteSize_singleton]

/-- The size of a text is the number of bytes of its characters. -/
theorem byteLength_toList (text : String) :
    byteLength text.toList = text.utf8ByteSize := by
  rw [byteLength_eq, String.ofList_toList]

/-- A place in a text: the bytes before it and the characters behind. -/
structure Cursor where
  offset : Nat
  rest : List Char
deriving DecidableEq, Repr

namespace Cursor

/-- The start of a text. -/
def ofText (text : List Char) : Cursor :=
  ⟨0, text⟩

/-- The same place with the blanks behind it passed. -/
def skipBlanks (c : Cursor) : Cursor :=
  ⟨c.offset + byteLength (c.rest.takeWhile Text.isBlank),
    Text.trimStart c.rest⟩

/-- What is read at a place: the end of the text, a token with the offset
of its first byte and the place behind it, or a fault. -/
inductive Step where
  | finished (offset : Nat)
  | token (start : Nat) (t : Token) (behind : Cursor)
  | failed (error : SyntaxError)
deriving DecidableEq, Repr

/-- The operator that a word spells, in any mix of cases. -/
def operator? (word : List Char) : Option Operator :=
  match word.map Char.toLower with
  | ['a', 'n', 'd'] => some .and
  | ['o', 'r'] => some .or
  | ['n', 'o', 't'] => some .not
  | _ => none

/-- Reads the tag whose `@` is at `start` and whose name is at the front
of `s`. -/
def readTag (start : Nat) (s : List Char) : Step :=
  let written := (spanTag s).1
  let behind := start + 1 + byteLength written
  match unescape? written with
  | none => .failed ⟨behind, .danglingEscape⟩
  | some [] => .failed ⟨start + 1, .missingTagName⟩
  | some (c :: name) =>
    .token start (.tag (String.ofList ('@' :: c :: name)))
      ⟨behind, (spanTag s).2⟩

/-- Reads the word at the front of `s`. -/
def readWord (start : Nat) (s : List Char) : Step :=
  let word := s.takeWhile Char.isAlpha
  match operator? word with
  | some op =>
    .token start (.operator op)
      ⟨start + byteLength word, s.dropWhile Char.isAlpha⟩
  | none => .failed ⟨start, .unexpectedWord (String.ofList word)⟩

/-- Reads what stands at the front of `s`, which starts at `start`. -/
def readToken (start : Nat) : List Char → Step
  | [] => .finished start
  | c :: s =>
    if c = '@' then readTag start s
    else if c = '(' then .token start .openParen ⟨start + 1, s⟩
    else if c = ')' then .token start .closeParen ⟨start + 1, s⟩
    else if c.isAlpha then readWord start (c :: s)
    else .failed ⟨start, .unexpectedCharacter c⟩

/-- Passes blanks and reads one token. -/
def next (c : Cursor) : Step :=
  readToken c.skipBlanks.offset c.skipBlanks.rest

/-- The name of a tag never lengthens the text. -/
private theorem length_spanTag_le (s : List Char) :
    (spanTag s).2.length ≤ s.length := by
  have h := congrArg List.length (spanTag_append s)
  simp only [List.length_append] at h
  omega

/-- A word takes its first letter off the text. -/
private theorem length_dropWhile_isAlpha_lt {c : Char} (h : c.isAlpha = true)
    (s : List Char) :
    ((c :: s).dropWhile Char.isAlpha).length < (c :: s).length := by
  rw [List.dropWhile_cons_of_pos h]
  exact Nat.lt_succ_of_le (List.dropWhile_suffix _).length_le

/-- A token takes at least one character off the text it is read from. -/
theorem readToken_shorter {start : Nat} {s : List Char} {at_ : Nat} {t : Token}
    {behind : Cursor} (h : readToken start s = .token at_ t behind) :
    behind.rest.length < s.length := by
  cases s with
  | nil => simp [readToken] at h
  | cons c s =>
      rw [readToken] at h
      split at h
      · simp only [readTag] at h
        split at h <;> simp only [reduceCtorEq, Step.token.injEq] at h
        rw [← h.2.2]
        exact Nat.lt_succ_of_le (length_spanTag_le s)
      · split at h
        · simp only [Step.token.injEq] at h
          simp [← h.2.2]
        · split at h
          · simp only [Step.token.injEq] at h
            simp [← h.2.2]
          · split at h
            · next hc =>
                simp only [readWord] at h
                split at h <;> simp only [reduceCtorEq, Step.token.injEq] at h
                rw [← h.2.2]
                exact length_dropWhile_isAlpha_lt hc s
            · simp at h

/-- Reading a token leaves less to read. -/
theorem next_shorter {c : Cursor} {start : Nat} {t : Token} {behind : Cursor}
    (h : c.next = .token start t behind) :
    behind.rest.length < c.rest.length :=
  Nat.lt_of_lt_of_le (readToken_shorter h)
    (List.dropWhile_suffix _).length_le

end Cursor

/-- The tokens of a text, each with the offset of its first byte, up to
the end of the text or to the first fault. -/
structure Scan where
  tokens : List (Nat × Token)
  ending : Except SyntaxError Nat

/-- All tokens from a place on. -/
def Cursor.scan (c : Cursor) : Scan :=
  match _h : c.next with
  | .finished offset => ⟨[], .ok offset⟩
  | .failed error => ⟨[], .error error⟩
  | .token start t behind =>
    let later := behind.scan
    ⟨(start, t) :: later.tokens, later.ending⟩
termination_by c.rest.length
decreasing_by exact Cursor.next_shorter _h

/-- All tokens of a text. -/
def scan (text : List Char) : Scan :=
  (Cursor.ofText text).scan

end SoloScenario.TagExpr
