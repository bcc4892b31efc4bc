import Mathlib.Data.String.Basic
import SoloScenario.TagExpr.Scan

/-!
# Reading tokens at byte positions

A `Cursor` carries the characters that are ahead of it.  The reader of this
module has the whole text instead, and a position in it, counted in bytes:
a call passes the blanks there, reads one token and leaves the position
behind it.  Three loops move the position, each time by the width of the
character that stands there (`left_of_peek?`), which is why they end.

Two guards answer for positions that are not between two characters:
`Failure.unexpectedEnd` where no character stands although bytes are left,
and `Failure.brokenWord` where a word cannot be cut out of the text.
-/

namespace SoloScenario.TagExpr

namespace ByteReader

/-- Why a call fails: for a fault of the text, or by a guard. -/
inductive Failure where
  | fault (f : Fault)
  /-- Bytes are left, but no character stands at the position. -/
  | unexpectedEnd
  /-- A word does not begin and end between characters. -/
  | brokenWord
deriving DecidableEq, Repr

/-- The wording of a failure. -/
def Failure.reason : Failure → String
  | .fault f => f.reason
  | .unexpectedEnd => "unexpected end"
  | .brokenWord => "invalid keyword boundaries"

/-- What a call answers. -/
inductive Answer where
  | finished (offset : Nat)
  | token (start : Nat) (t : Token)
  | failed (offset : Nat) (why : Failure)
deriving DecidableEq, Repr

/-- The answer that tells a cursor's step. -/
def Answer.ofStep : Cursor.Step → Answer
  | .finished offset => .finished offset
  | .token start t _ => .token start t
  | .failed error => .failed error.offset (.fault error.fault)

variable (text : String)

/-- The character that stands at a byte.  There is none at the end of the
text, behind it, and inside of a character. -/
def peek? (pos : Nat) : Option Char :=
  String.Pos.Raw.get? text ⟨pos⟩

/-- The search from byte `i` finds a character only where it stands. -/
theorem place_of_getAux? {s : List Char} {i pos : Nat} {c : Char}
    (h : String.Pos.Raw.utf8GetAux? s ⟨i⟩ ⟨pos⟩ = some c) :
    ∃ before behind, s = before ++ c :: behind
      ∧ pos = i + byteLength before := by
  induction s generalizing i with
  | nil => simp [String.Pos.Raw.utf8GetAux?] at h
  | cons d s ih =>
      rw [String.Pos.Raw.utf8GetAux?] at h
      split at h
      · next heq =>
          obtain rfl := Option.some.inj h
          exact ⟨[], s, rfl, (congrArg String.Pos.Raw.byteIdx heq).symm⟩
      · obtain ⟨before, behind, rfl, hpos⟩ := ih (i := i + d.utf8Size) h
        exact ⟨d :: before, behind, rfl, by rw [hpos, byteLength]; omega⟩

/-- A character is found only where it stands in the text. -/
theorem place_of_peek? {pos : Nat} {c : Char} (h : peek? text pos = some c) :
    ∃ before behind, text.toList = before ++ c :: behind
      ∧ pos = byteLength before := by
  obtain ⟨before, behind, htext, hpos⟩ := place_of_getAux? (i := 0) h
  exact ⟨before, behind, htext, hpos.trans (Nat.zero_add _)⟩

/-- Behind a character less of the text is left. -/
theorem left_of_peek? {pos : Nat} {c : Char} (h : peek? text pos = some c) :
    text.utf8ByteSize - (pos + c.utf8Size) < text.utf8ByteSize - pos := by
  obtain ⟨before, behind, htext, rfl⟩ := place_of_peek? text h
  have hsize := Char.utf8Size_pos c
  rw [← byteLength_toList, htext, byteLength_append, byteLength]
  omega

/-- The position behind the characters of a kind. -/
def passWhile (p : Char → Bool) (pos : Nat) : Nat :=
  match _h : peek? text pos with
  | none => pos
  | some c => if p c then passWhile p (pos + c.utf8Size) else pos
termination_by text.utf8ByteSize - pos
decreasing_by exact left_of_peek? text _h

/-- Reads the name of a tag behind what is read of it, and stops where the
tag ends.  There is none if the text ends in a backslash. -/
def readName (pos : Nat) (tag : String) : Option String × Nat :=
  match _h : peek? text pos with
  | none => (some tag, pos)
  | some c =>
    if endsTag c then (some tag, pos)
    else if c = '\\' then
      match peek? text (pos + c.utf8Size) with
      | none => (none, pos + c.utf8Size)
      | some e => readName (pos + c.utf8Size + e.utf8Size) (tag.push e)
    else readName (pos + c.utf8Size) (tag.push c)
termination_by text.utf8ByteSize - pos
decreasing_by
  · have hleft := left_of_peek? text _h
    omega
  · exact left_of_peek? text _h

/-- Reads the tag whose `@` is at `start`; its name is at `pos`. -/
def readTag (start pos : Nat) : Answer × Nat :=
  match readName text pos "@" with
  | (none, stop) => (.failed stop (.fault .danglingEscape), stop)
  | (some whole, stop) =>
    if whole.utf8ByteSize = 1 then
      (.failed (start + 1) (.fault .missingTagName), stop)
    else (.token start (.tag whole), stop)

/-- The text from one byte to another, if both are between characters. -/
def slice? (start stop : Nat) : Option String :=
  if start ≤ stop ∧ String.Pos.Raw.isValid text ⟨start⟩
      ∧ String.Pos.Raw.isValid text ⟨stop⟩ then
    some (String.Pos.Raw.extract text ⟨start⟩ ⟨stop⟩)
  else none

/-- Reads the word that begins at `start` with the letter in front of
`pos`. -/
def readWord (start pos : Nat) : Answer × Nat :=
  let stop := passWhile text Char.isAlpha pos
  match slice? text start stop with
  | none => (.failed start .brokenWord, stop)
  | some word =>
    match Cursor.operator? word.toList with
    | some op => (.token start (.operator op), stop)
    | none => (.failed start (.fault (.unexpectedWord word)), stop)

/-- Reads what stands at a byte. -/
def read (start : Nat) : Answer × Nat :=
  if text.utf8ByteSize ≤ start then (.finished text.utf8ByteSize, start)
  else
    match peek? text start with
    | none => (.failed start .unexpectedEnd, start)
    | some c =>
      let pos := start + c.utf8Size
      if c = '@' then readTag text start pos
      else if c = '(' then (.token start .openParen, pos)
      else if c = ')' then (.token start .closeParen, pos)
      else if c.isAlpha then readWord text start pos
      else (.failed start (.fault (.unexpectedCharacter c)), pos)

/-- One call: the blanks at the position are passed, and what stands behind
them is read.  The answer comes with the position that is left. -/
def call (pos : Nat) : Answer × Nat :=
  read text (passWhile text Text.isBlank pos)

end ByteReader

end SoloScenario.TagExpr
