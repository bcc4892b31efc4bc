import SoloScenario.Proofs.TagExpr.Places
import SoloScenario.TagExpr.ByteReader

/-!
# The reader at byte positions

The reader at byte positions (`ByteReader.call`) is compared with the step
of a cursor.  At a place of the text the two come to the same, and the
guards never answer.

* `Cursor.Within` — a cursor at a place of a text;
* `agrees_call` — there a call and the cursor's own step come to the same, and
  the position gets to a place of the text again.
-/

namespace SoloScenario.TagExpr

/-! ## Places of a text -/

/-- A cursor is at a place of a text: what it has ahead is what stands in
the text behind its offset. -/
def Cursor.Within (c : Cursor) (text : String) : Prop :=
  ∃ before, text.toList = before ++ c.rest ∧ c.offset = byteLength before

namespace Cursor.Within

variable {text : String} {c : Cursor} {offset : Nat} {s : List Char}

/-- A cursor at the front of the text lies within it. -/
theorem ofText (text : String) : (Cursor.ofText text.toList).Within text :=
  ⟨[], rfl, rfl⟩

/-- What is passed is gone from ahead, and counted. -/
theorem pass (h : c.Within text) {passed later : List Char}
    (hrest : c.rest = passed ++ later) :
    (Cursor.mk (c.offset + byteLength passed) later).Within text := by
  obtain ⟨before, htext, hoffset⟩ := h
  refine ⟨before ++ passed, ?_, ?_⟩
  · rw [htext, hrest, List.append_assoc]
  · rw [hoffset, byteLength_append]

/-- One character further on it still does. -/
theorem tail {d : Char} (h : (Cursor.mk offset (d :: s)).Within text) :
    (Cursor.mk (offset + d.utf8Size) s).Within text := by
  have hrest : d :: s = [d] ++ s := rfl
  exact h.pass hrest

/-- So it does behind the blanks. -/
theorem skipBlanks (h : c.Within text) : c.skipBlanks.Within text :=
  h.pass (Cursor.blanks_append c.rest).symm

/-- The text ends where what is left of it ends. -/
theorem utf8ByteSize_eq (h : c.Within text) :
    text.utf8ByteSize = c.offset + byteLength c.rest := by
  obtain ⟨before, htext, hoffset⟩ := h
  rw [← byteLength_toList, htext, byteLength_append, hoffset]

/-- The offset is on the border of a character. -/
theorem isValid (h : c.Within text) :
    String.Pos.Raw.IsValid text ⟨c.offset⟩ := by
  obtain ⟨before, htext, hoffset⟩ := h
  refine String.Pos.Raw.isValid_iff_exists_append.mpr
    ⟨String.ofList before, String.ofList c.rest, ?_, ?_⟩
  · rw [← String.ofList_append, ← htext, String.ofList_toList]
  · rw [hoffset, byteLength_eq]
    rfl

/-- **The character at the position of a cursor is the first one that is
left.** -/
theorem peek? (h : c.Within text) :
    ByteReader.peek? text c.offset = c.rest.head? := by
  obtain ⟨before, htext, hoffset⟩ := h
  have hget := String.get?_of_valid before c.rest
  rwa [← htext, String.ofList_toList, utf8Len_eq, ← hoffset]
    at hget

end Cursor.Within

namespace ByteReader

open Cursor (Within)

variable {text : String} {offset : Nat} {s : List Char}

/-! ## The loops -/

/-- At the end of the text nothing is passed. -/
theorem passWhile_of_none (p : Char → Bool)
    (h : peek? text offset = none) : passWhile text p offset = offset := by
  rw [passWhile]
  split <;> simp_all

/-- A character that fits is passed, and one that does not stops. -/
theorem passWhile_of_some (p : Char → Bool) {c : Char}
    (h : peek? text offset = some c) : passWhile text p offset
      = if p c then passWhile text p (offset + c.utf8Size) else offset := by
  conv => lhs; rw [passWhile]
  split <;> simp_all

/-- The position gets behind all characters of the kind. -/
theorem passWhile_eq (p : Char → Bool)
    (h : (Cursor.mk offset s).Within text) :
    passWhile text p offset = offset + byteLength (s.takeWhile p) := by
  induction s generalizing offset with
  | nil => exact passWhile_of_none p h.peek?
  | cons d s ih =>
      rw [passWhile_of_some p h.peek?, List.takeWhile_cons]
      split
      · rw [ih h.tail, byteLength, Nat.add_assoc]
      · rfl

/-- At the end of the text a name ends. -/
theorem readName_of_none (tag : String) (h : peek? text offset = none) :
    readName text offset tag = (some tag, offset) := by
  rw [readName]
  split <;> simp_all

/-- Elsewhere a name ends, takes what a backslash escapes, or takes the
character itself. -/
theorem readName_of_some (tag : String) {c : Char}
    (h : peek? text offset = some c) : readName text offset tag
      = if endsTag c then (some tag, offset)
        else if c = '\\' then
          match peek? text (offset + c.utf8Size) with
          | none => (none, offset + c.utf8Size)
          | some e => readName text (offset + c.utf8Size + e.utf8Size)
            (tag.push e)
        else readName text (offset + c.utf8Size) (tag.push c) := by
  conv => lhs; rw [readName]
  split
  · simp_all
  · next d hd =>
      obtain rfl := Option.some.inj (h.symm.trans hd)
      rfl

/-- A character behind what has been read is one in front of what is to be
read. -/
theorem push_append_ofList (tag : String) (c : Char) (name : List Char) :
    tag.push c ++ String.ofList name = tag ++ String.ofList (c :: name) := by
  rw [← String.toList_inj]
  simp [String.toList_append]

/-- **The name of a tag is read as it is written,** and the position gets
behind it. -/
theorem readName_eq (tag : String)
    (h : (Cursor.mk offset s).Within text) : readName text offset tag
      = ((unescape? (spanTag s).1).map fun name => tag ++ String.ofList name,
        offset + byteLength (spanTag s).1) := by
  fun_induction spanTag s generalizing offset tag with
  | case1 =>
      rw [readName_of_none tag h.peek?]
      simp [unescape?, byteLength]
  | case2 c s ih =>
      have hends : ¬ endsTag '\\' = true := by decide
      have hpeek : peek? text (offset + Char.utf8Size '\\') = some c :=
        h.tail.peek?
      rw [readName_of_some tag h.peek?, if_neg hends, if_pos rfl, hpeek]
      dsimp only
      rw [ih _ h.tail.tail]
      simp [unescape?, push_append_ofList, byteLength, Nat.add_assoc,
        Function.comp_def]
  | case3 c s _ hends =>
      rw [readName_of_some tag h.peek?, if_pos hends]
      simp [unescape?, byteLength]
  | case4 c s hslash hends ih =>
      rw [readName_of_some tag h.peek?, if_neg hends]
      by_cases hc : c = '\\'
      · -- Only a backslash at the end of the text is left.
        subst hc
        cases s with
        | nil =>
            have hpeek : peek? text (offset + Char.utf8Size '\\') = none :=
              h.tail.peek?
            rw [if_pos rfl, hpeek]
            simp [spanTag, unescape?, byteLength]
        | cons d s => exact absurd rfl (hslash d s rfl)
      · rw [if_neg hc, ih _ h.tail,
          unescape?.eq_4 c _ (fun h _ => hc h) (fun _ _ h _ => hc h)]
        simp [push_append_ofList, byteLength, Nat.add_assoc,
          Function.comp_def]

/-! ## One call -/

/-- **A tag is read as the cursor reads it,** and the position gets behind its
name. -/
theorem readTag_eq {start : Nat}
    (h : (Cursor.mk (start + 1) s).Within text) :
    readTag text start (start + 1) = (.ofStep (Cursor.readTag start s),
      start + 1 + byteLength (spanTag s).1) := by
  rw [readTag, readName_eq "@" h, Cursor.readTag]
  cases hname : unescape? (spanTag s).1 with
  | none => rfl
  | some name =>
      cases name with
      | nil => rfl
      | cons c name =>
          have hsize : ("@" ++ String.ofList (c :: name)).utf8ByteSize ≠ 1 :=
            by
            have hat : "@".utf8ByteSize = 1 := by decide
            have hpos := Char.utf8Size_pos c
            rw [String.utf8ByteSize_append, hat, ← byteLength_eq, byteLength]
            omega
          have htag : "@" ++ String.ofList (c :: name)
              = String.ofList ('@' :: c :: name) := by
            rw [← String.toList_inj]
            simp [String.toList_append]
          simp only [Option.map_some, if_neg hsize]
          rw [htag]
          rfl

/-- **A slice between two places of a cursor is the text between them.** -/
theorem slice?_eq {passed later : List Char}
    (h : (Cursor.mk offset (passed ++ later)).Within text) :
    slice? text offset (offset + byteLength passed)
      = some (String.ofList passed) := by
  have hstart := String.Pos.Raw.isValid_eq_true_iff.mpr h.isValid
  have hstop := String.Pos.Raw.isValid_eq_true_iff.mpr (h.pass rfl).isValid
  obtain ⟨before, htext, hoffset⟩ := h
  have hextract := String.extract_of_valid before passed later
  rw [List.append_assoc, ← htext, String.ofList_toList, utf8Len_eq,
    utf8Len_eq, ← hoffset] at hextract
  rw [slice?, if_pos ⟨Nat.le_add_right _ _, hstart, hstop⟩, hextract]

/-- **A word is read as the cursor reads it,** and the position gets behind its
letters. -/
theorem readWord_eq {start : Nat} {c : Char}
    (h : (Cursor.mk start (c :: s)).Within text) (hletter : c.isAlpha = true) :
    readWord text start (start + c.utf8Size)
      = (.ofStep (Cursor.readWord start (c :: s)),
        start + byteLength ((c :: s).takeWhile Char.isAlpha)) := by
  have hstop : passWhile text Char.isAlpha (start + c.utf8Size)
      = start + byteLength ((c :: s).takeWhile Char.isAlpha) := by
    rw [passWhile_eq _ h.tail, List.takeWhile_cons_of_pos hletter,
      byteLength, Nat.add_assoc]
  have hslice : slice? text start
      (start + byteLength ((c :: s).takeWhile Char.isAlpha))
      = some (String.ofList ((c :: s).takeWhile Char.isAlpha)) := by
    rw [← List.takeWhile_append_dropWhile (p := Char.isAlpha)
      (l := c :: s)] at h
    exact slice?_eq h
  simp only [readWord, hstop, hslice, String.toList_ofList, Cursor.readWord]
  cases Cursor.operator? ((c :: s).takeWhile Char.isAlpha) <;> rfl

/-- A call that ends like this agrees with a cursor's step: it gives the
same answer and gets to a place of the text, that of the step if there is
one. -/
structure Agrees (text : String) (start : Nat) (step : Cursor.Step)
    (ended : Answer × Nat) (after : Cursor) : Prop where
  answer : ended.1 = .ofStep step
  place : ended.2 = after.offset
  within : after.Within text
  onward : start ≤ after.offset
  behind : ∀ start' t behind, step = .token start' t behind → after = behind

/-- So a call agrees that reads a tag. -/
theorem agrees_readTag {start : Nat}
    (h : (Cursor.mk start ('@' :: s)).Within text) :
    Agrees text start (Cursor.readTag start s) (readTag text start (start + 1))
      ⟨start + 1 + byteLength (spanTag s).1, (spanTag s).2⟩ := by
  have htail : (Cursor.mk (start + 1) s).Within text := h.tail
  rw [readTag_eq htail]
  refine ⟨rfl, rfl, htail.pass (spanTag_append s).symm, ?_, ?_⟩
  · dsimp only
    omega
  · intro start' t behind hstep
    rw [Cursor.readTag] at hstep
    split at hstep <;> cases hstep
    rfl

/-- So does one that reads a word. -/
theorem agrees_readWord {start : Nat} {c : Char}
    (h : (Cursor.mk start (c :: s)).Within text)
    (hletter : c.isAlpha = true) :
    Agrees text start (Cursor.readWord start (c :: s))
      (readWord text start (start + c.utf8Size))
      ⟨start + byteLength ((c :: s).takeWhile Char.isAlpha),
        (c :: s).dropWhile Char.isAlpha⟩ := by
  rw [readWord_eq h hletter]
  refine ⟨rfl, rfl, h.pass List.takeWhile_append_dropWhile.symm,
    Nat.le_add_right _ _, ?_⟩
  intro start' t behind hstep
  simp only [Cursor.readWord] at hstep
  split at hstep <;> cases hstep
  rfl

/-- What stands at a place is read as a cursor there reads it. -/
theorem agrees_read {start : Nat} (h : (Cursor.mk start s).Within text) :
    ∃ after, Agrees text start (Cursor.readToken start s) (read text start)
      after := by
  have hsize : text.utf8ByteSize = start + byteLength s := h.utf8ByteSize_eq
  cases s with
  | nil =>
      have hend : text.utf8ByteSize = start := hsize
      refine ⟨⟨start, []⟩, ?_⟩
      rw [read, if_pos (Nat.le_of_eq hend), hend]
      exact ⟨rfl, rfl, h, Nat.le_refl _, by simp [Cursor.readToken]⟩
  | cons c s =>
      have hleft : ¬ text.utf8ByteSize ≤ start := by
        have hpos := Char.utf8Size_pos c
        rw [hsize, byteLength]
        omega
      have hpeek : peek? text start = some c := h.peek?
      have hread : read text start
          = if c = '@' then readTag text start (start + c.utf8Size)
            else if c = '(' then (.token start .openParen, start + c.utf8Size)
            else if c = ')' then
              (.token start .closeParen, start + c.utf8Size)
            else if c.isAlpha then readWord text start (start + c.utf8Size)
            else (.failed start (.fault (.unexpectedCharacter c)),
              start + c.utf8Size) := by
        rw [read, if_neg hleft, hpeek]
      rw [hread, Cursor.readToken]
      split
      · next hat =>
          subst hat
          exact ⟨_, agrees_readTag h⟩
      · split
        · next hopen =>
            subst hopen
            exact ⟨_, rfl, rfl, h.tail, Nat.le_add_right _ _, by
              rintro _ _ _ ⟨⟩; rfl⟩
        · split
          · next hclose =>
              subst hclose
              exact ⟨_, rfl, rfl, h.tail, Nat.le_add_right _ _, by
                rintro _ _ _ ⟨⟩; rfl⟩
          · split
            · next hletter => exact ⟨_, agrees_readWord h hletter⟩
            · exact ⟨_, rfl, rfl, h.tail, Nat.le_add_right _ _, by simp⟩

/-- **A call at a place of the text agrees with the step of a cursor
there.** -/
theorem agrees_call {c : Cursor} (h : c.Within text) :
    ∃ after, Agrees text c.offset c.next (call text c.offset) after := by
  have hpass : passWhile text Text.isBlank c.offset = c.skipBlanks.offset :=
    passWhile_eq Text.isBlank h
  obtain ⟨after, hafter⟩ := agrees_read h.skipBlanks
  rw [call, hpass, Cursor.next]
  exact ⟨after, { hafter with
    onward := Nat.le_trans (Nat.le_add_right _ _) hafter.onward }⟩

/-- Off the borders of characters it is the guard that answers. -/
theorem call_of_not_isValid {pos : Nat}
    (h : ¬ String.Pos.Raw.IsValid text ⟨pos⟩)
    (hleft : pos < text.utf8ByteSize) :
    call text pos = (.failed pos .unexpectedEnd, pos) := by
  have hpeek : peek? text pos = none := by
    refine Option.eq_none_iff_forall_ne_some.mpr fun c hc => h ?_
    obtain ⟨before, behind, htext, rfl⟩ := place_of_peek? text hc
    have hplace : (Cursor.mk (byteLength before) (c :: behind)).Within text :=
      ⟨before, htext, rfl⟩
    exact hplace.isValid
  rw [call, passWhile_of_none _ hpeek, read, if_neg (Nat.not_le.mpr hleft),
    hpeek]

example : call "é" 1 = (.failed 1 .unexpectedEnd, 1) := by cbv

end ByteReader

end SoloScenario.TagExpr
