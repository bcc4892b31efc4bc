import Mathlib.Data.String.Basic
import SoloScenario.Output.FileName

/-!
# What the stem of a name keeps

A stem is made character by character, so everything about it follows from
what becomes of one character: an unsafe one becomes an underscore, which
is safe and has one byte, and every other one stays.

* `fileStem_fileStem` — a stem is its own stem;
* `utf8ByteSize_fileStem_le` — it has no more bytes than the name;
* `fileStem_eq_iff` — which names have the same stem.
-/

namespace SoloScenario.Output

/-! ## One character -/

/-- An underscore is safe. -/
theorem isUnsafe_underscore : isUnsafe '_' = false := by decide

/-- So is every character that is put into a stem. -/
theorem isUnsafe_safeChar (c : Char) : isUnsafe (safeChar c) = false := by
  rw [safeChar]
  split
  · exact isUnsafe_underscore
  · next hsafe => simpa using hsafe

/-- A safe character is put there as it is. -/
theorem safeChar_of_safe {c : Char} (h : isUnsafe c = false) :
    safeChar c = c := by
  simp [safeChar, h]

/-- Putting it there once more changes nothing. -/
theorem safeChar_safeChar (c : Char) : safeChar (safeChar c) = safeChar c :=
  safeChar_of_safe (isUnsafe_safeChar c)

/-- The underscore has one byte, and no character has less. -/
theorem utf8Size_safeChar_le (c : Char) :
    (safeChar c).utf8Size ≤ c.utf8Size := by
  rw [safeChar]
  split
  · exact Char.utf8Size_pos c
  · exact Nat.le_refl _

/-- The characters that are an underscore in a stem. -/
def isUnderscored (c : Char) : Bool :=
  c == '_' || c == '/' || c == '\\' || Text.isBlank c

/-- What is an underscore in a stem was one or was unsafe. -/
theorem isUnderscored_eq (c : Char) :
    isUnderscored c = (c == '_' || isUnsafe c) := by
  simp only [isUnderscored, isUnsafe, Bool.or_assoc]

/-- These characters are underscored and no other. -/
theorem safeChar_eq_underscore_iff {c : Char} :
    safeChar c = '_' ↔ isUnderscored c = true := by
  rw [isUnderscored_eq]
  cases h : isUnsafe c with
  | true => simp [safeChar, h]
  | false => simp [safeChar_of_safe h]

/-- **Which characters a stem does not tell apart.** -/
theorem safeChar_eq_iff {c d : Char} : safeChar c = safeChar d
    ↔ c = d ∨ isUnderscored c = true ∧ isUnderscored d = true := by
  constructor
  · intro h
    by_cases hc : isUnsafe c = true
    · have hbar : safeChar c = '_' := if_pos hc
      exact .inr ⟨safeChar_eq_underscore_iff.mp hbar,
        safeChar_eq_underscore_iff.mp (h ▸ hbar)⟩
    · by_cases hd : isUnsafe d = true
      · have hbar : safeChar d = '_' := if_pos hd
        exact .inr ⟨safeChar_eq_underscore_iff.mp (h ▸ hbar),
          safeChar_eq_underscore_iff.mp hbar⟩
      · rw [safeChar, if_neg hc, safeChar, if_neg hd] at h
        exact .inl h
  · rintro (rfl | ⟨hc, hd⟩)
    · rfl
    · rw [safeChar_eq_underscore_iff.mpr hc,
        safeChar_eq_underscore_iff.mpr hd]

/-! ## A whole stem -/

/-- A stem has the name's characters, each made safe. -/
theorem toList_fileStem (name : String) :
    (fileStem name).toList = name.toList.map safeChar :=
  String.toList_ofList

/-- **The stem of a stem is the stem itself.** -/
theorem fileStem_fileStem (name : String) :
    fileStem (fileStem name) = fileStem name := by
  rw [← String.toList_inj, toList_fileStem, toList_fileStem, List.map_map]
  exact List.map_congr_left fun c _ => safeChar_safeChar c

/-- Made safe, no text takes more bytes than before. -/
theorem utf8Len_map_safeChar_le (s : List Char) :
    String.utf8Len (s.map safeChar) ≤ String.utf8Len s := by
  induction s with
  | nil => exact Nat.le_refl _
  | cons c s ih => exact Nat.add_le_add ih (utf8Size_safeChar_le c)

/-- A stem has no more bytes than the name it is made of. -/
theorem utf8ByteSize_fileStem_le (name : String) :
    (fileStem name).utf8ByteSize ≤ name.utf8ByteSize := by
  rw [← String.utf8Len_toList, ← String.utf8Len_toList, toList_fileStem]
  exact utf8Len_map_safeChar_le name.toList

/-- **Two names have the same stem** exactly if they have as many
characters, and wherever they differ both characters are underscored. -/
theorem fileStem_eq_iff {a b : String} : fileStem a = fileStem b
    ↔ a.length = b.length ∧ ∀ (i : Nat) (c d : Char),
      a.toList[i]? = some c → b.toList[i]? = some d →
        c = d ∨ isUnderscored c = true ∧ isUnderscored d = true := by
  rw [← String.toList_inj, toList_fileStem, toList_fileStem,
    ← String.length_toList, ← String.length_toList]
  constructor
  · intro h
    refine ⟨by simpa using congrArg List.length h, fun i c d hc hd => ?_⟩
    have hi := congrArg (·[i]?) h
    simp only [List.getElem?_map, hc, hd, Option.map_some,
      Option.some.injEq] at hi
    exact safeChar_eq_iff.mp hi
  · rintro ⟨hlength, hall⟩
    refine List.ext_getElem (by simpa using hlength) fun i ha hb => ?_
    rw [List.length_map] at ha hb
    rw [List.getElem_map, List.getElem_map]
    exact safeChar_eq_iff.mpr (hall i _ _ (List.getElem?_eq_getElem ha)
      (List.getElem?_eq_getElem hb))

end SoloScenario.Output
