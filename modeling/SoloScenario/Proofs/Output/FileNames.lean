import Mathlib.Data.List.Lex
import SoloScenario.Proofs.Output.Stamps
import SoloScenario.Proofs.Output.Stems

/-!
# The names of the files of one run

A file's name holds its stem and its stamp and can be taken apart again
(`readFileName_fileName`): the stamp stands between the last two dots, as
neither a stamp nor the ending holds another.  So two files have the same
name only if their stamps are the same, and the stamps of one clock are
not.

Names are compared by their bytes (`ByteLess`).  Of two files with the
same stem the later one comes behind the earlier one, as long as their
stamps are not negative and have the same number of digits.

* `stampText_spec` — what is known of the text of a stamp;
* `byteLess_fileName` — larger stamps make later names;
* `stamped_distinct` — all of this for the files of one clock.
-/

namespace SoloScenario.Output

/-! ## Taking a name apart -/

/-- The number that a text of digits stands for, with a sign or not. -/
def readStamp : List Char → Int64
  | '-' :: digits => Int64.ofInt (-(Nat.ofDigitChars 10 digits 0 : Nat))
  | digits => Int64.ofInt (Nat.ofDigitChars 10 digits 0 : Nat)

/-- The stem and the stamp in the name of a file.  The stamp is what stands
behind the last dot but one. -/
def readFileName (file : String) : String × Int64 :=
  let back := file.toList.reverse.drop ".feature".length
  let stamp := (back.takeWhile (· ≠ '.')).reverse
  let stem := ((back.dropWhile (· ≠ '.')).drop 1).reverse
  (String.ofList stem, readStamp stamp)

/-- The digits of a number are read as the number. -/
theorem readStamp_toDigits (n : Nat) :
    readStamp (Nat.toDigits 10 n) = Int64.ofInt n := by
  have hval : Nat.ofDigitChars 10 (Nat.toDigits 10 n) 0 = n :=
    Nat.ofDigitChars_ten_toDigits
  rw [readStamp.eq_def]
  split
  · next digits h =>
      have hmem : '-' ∈ Nat.toDigits 10 n := by simp [h]
      exact absurd (Nat.isDigit_of_mem_toDigits (by decide) (by decide) hmem)
        (by decide)
  · rw [hval]

/-- The text of a stamp has digits and a sign, nothing else. -/
theorem mem_stampText {s : Int64} {c : Char}
    (h : c ∈ (stampText s).toList) : c = '-' ∨ c.isDigit := by
  have hdigit : ∀ n : Nat, c ∈ Nat.toDigits 10 n → c.isDigit := fun _ hc =>
    Nat.isDigit_of_mem_toDigits (by decide) (by decide) hc
  rw [stampText] at h
  cases hs : s.toInt with
  | ofNat n =>
      simp only [hs, Nat.toList_repr] at h
      exact .inr (hdigit n h)
  | negSucc n =>
      have htext : ("-" ++ (n + 1).repr).toList
          = '-' :: Nat.toDigits 10 (n + 1) := by simp
      simp only [hs, htext] at h
      rcases List.mem_cons.mp h with h | h
      · exact .inl h
      · exact .inr (hdigit (n + 1) h)

/-- A stamp is written with digits and a sign and nothing else. -/
theorem notMem_stampText {s : Int64} {c : Char} (hsign : c ≠ '-')
    (hdigit : c.isDigit = false) : c ∉ (stampText s).toList := by
  intro h
  rcases mem_stampText h with h | h
  · exact hsign h
  · exact absurd h (by simp [hdigit])

/-- The text of a stamp: it holds no dot and can be read again. -/
theorem stampText_spec (s : Int64) :
    '.' ∉ (stampText s).toList ∧ readStamp (stampText s).toList = s := by
  have hback : Int64.ofInt s.toInt = s := Int64.ofInt_toInt s
  refine ⟨notMem_stampText (by decide) (by decide), ?_⟩
  rw [stampText]
  cases h : s.toInt with
  | ofNat n =>
      simp only [Nat.toList_repr]
      rw [readStamp_toDigits, ← hback, h]
      rfl
  | negSucc n =>
      have htext : ("-" ++ (n + 1).repr).toList
          = '-' :: Nat.toDigits 10 (n + 1) := by simp
      rw [htext, readStamp, Nat.ofDigitChars_ten_toDigits, ← hback, h]
      rfl

/-- **The name of a file tells its stem and its stamp.** -/
theorem readFileName_fileName (name : String) (s : Int64) :
    readFileName (fileName name s) = (fileStem name, s) := by
  obtain ⟨hdot, hread⟩ := stampText_spec s
  have hback : (fileName name s).toList.reverse.drop ".feature".length
      = (stampText s).toList.reverse ++ '.' :: (fileStem name).toList.reverse
      := by
    have hlen : ".feature".length = 8 := by decide
    simp [fileName, String.toList_append, hlen]
  have hfree : ∀ c ∈ (stampText s).toList.reverse, decide (c ≠ '.') := by
    intro c hc
    have hne : c ≠ '.' := by
      rintro rfl
      exact hdot (List.mem_reverse.mp hc)
    simpa using hne
  have hstop : decide ('.' ≠ '.') = false := by decide
  rw [readFileName, hback, List.takeWhile_append_of_pos hfree,
    List.dropWhile_append_of_pos hfree, List.takeWhile_cons,
    List.dropWhile_cons, hstop]
  simp [hread]

/-- Files with the same name have the same stamp. -/
theorem stamp_of_fileName {name name' : String} {s s' : Int64}
    (h : fileName name s = fileName name' s') : s = s' := by
  have hread := congrArg (fun file => (readFileName file).2) h
  simpa only [readFileName_fileName] using hread

/-- A digit is safe in a file name. -/
theorem isUnsafe_of_isDigit {c : Char} (h : c.isDigit = true) :
    isUnsafe c = false := by
  have hrange : 48 ≤ c.toNat ∧ c.toNat ≤ 57 := by
    simpa [Char.isDigit, UInt32.le_iff_toNat_le] using h
  have hslash : c ≠ '/' := by rintro rfl; revert h; decide
  have hback : c ≠ '\\' := by rintro rfl; revert h; decide
  have hblank : Text.isBlank c = false := by
    rw [Bool.eq_false_iff, ne_eq, Text.isBlank_ascii (by omega)]
    omega
  simp [isUnsafe, hslash, hback, hblank]

/-- **Nothing unsafe is left in the name of a file.** -/
theorem isUnsafe_of_mem_fileName {name : String} {s : Int64} {c : Char}
    (h : c ∈ (fileName name s).toList) : isUnsafe c = false := by
  have hending : ".feature".toList.any isUnsafe = false := by decide
  simp only [fileName, String.toList_append, List.mem_append] at h
  rcases h with ((h | h) | h) | h
  · rw [toList_fileStem] at h
    obtain ⟨d, -, rfl⟩ := List.mem_map.mp h
    exact isUnsafe_safeChar d
  · obtain rfl : c = '.' := by simpa using h
    decide
  · rcases mem_stampText h with rfl | hdigit
    · decide
    · exact isUnsafe_of_isDigit hdigit
  · simpa using List.any_eq_false.mp hending c h

/-- The name of a file is one component of a path. -/
theorem slash_notMem_fileName (name : String) (s : Int64) :
    '/' ∉ (fileName name s).toList := fun h =>
  absurd (isUnsafe_of_mem_fileName h) (by decide)

/-- A null character in the name of a file is one of the stem. -/
theorem null_mem_fileName (name : String) (s : Int64) :
    '\x00' ∈ (fileName name s).toList
      ↔ '\x00' ∈ (fileStem name).toList := by
  have hstamp : '\x00' ∉ (stampText s).toList :=
    notMem_stampText (by decide) (by decide)
  have hfix : '\x00' ∉ ".".toList ∧ '\x00' ∉ ".feature".toList := by decide
  simp only [fileName, String.toList_append, List.mem_append, hstamp,
    hfix.1, hfix.2, or_false]

/-! ## The size of a name -/

/-- A digit is one byte. -/
theorem utf8Size_digit {c : Char} (h : c.isDigit) : c.utf8Size = 1 := by
  have hc : c.toNat ≤ 57 := by
    simp only [Char.isDigit, ge_iff_le, Bool.and_eq_true,
      decide_eq_true_eq] at h
    exact h.2
  rw [Char.utf8Size, if_pos]
  exact Nat.le_trans hc (by decide)

/-- A text of characters of one byte has as many bytes as characters. -/
theorem utf8Len_of_one_byte {l : List Char} (h : ∀ c ∈ l, c.utf8Size = 1) :
    String.utf8Len l = l.length := by
  induction l with
  | nil => rfl
  | cons c l ih =>
      rw [String.utf8Len_cons, h c List.mem_cons_self,
        ih fun d hd => h d (List.mem_cons_of_mem _ hd), List.length_cons]

/-- So a stamp has as many bytes as characters. -/
theorem utf8ByteSize_stampText (s : Int64) :
    (stampText s).utf8ByteSize = (stampText s).length := by
  have hsize : ∀ c ∈ (stampText s).toList, c.utf8Size = 1 := by
    intro c hc
    rcases mem_stampText hc with rfl | hdigit
    · decide
    · exact utf8Size_digit hdigit
  rw [← String.utf8Len_toList, utf8Len_of_one_byte hsize,
    String.length_toList]

/-- The size of a name: that of the stem, the digits, two dots and the
ending. -/
theorem utf8ByteSize_fileName (name : String) (s : Int64) :
    (fileName name s).utf8ByteSize
      = (fileStem name).utf8ByteSize + 1 + (stampText s).length + 8 := by
  have hdot : ".".utf8ByteSize = 1 := by decide
  have hend : ".feature".utf8ByteSize = 8 := by decide
  rw [fileName, String.utf8ByteSize_append, String.utf8ByteSize_append,
    String.utf8ByteSize_append, utf8ByteSize_stampText, hdot, hend]

/-! ## Names in the order of their bytes -/

/-- Whether a text comes before another one in the order of their bytes. -/
def ByteLess (a b : String) : Prop :=
  List.Lex (· < ·) a.toUTF8.data.toList b.toUTF8.data.toList

/-- The bytes of two texts put together. -/
theorem bytes_append (a b : String) : (a ++ b).toUTF8.data.toList
    = a.toUTF8.data.toList ++ b.toUTF8.data.toList := by
  simp [String.toByteArray_append]

/-- A difference between texts of the same length is not undone by what
stands behind them. -/
theorem lex_append {α : Type} {r : α → α → Prop} {a b : List α}
    (h : List.Lex r a b) (hlen : a.length = b.length) (x y : List α) :
    List.Lex r (a ++ x) (b ++ y) := by
  induction h with
  | nil => simp at hlen
  | rel h => exact .rel h
  | cons _ ih => exact .cons (ih (by simpa using hlen))

/-- A smaller digit is a smaller character. -/
theorem digitChar_lt {m n : Nat} (h : m < n) (hn : n < 10) :
    m.digitChar < n.digitChar := by
  rw [Char.lt_def, UInt32.lt_iff_toNat_lt]
  show m.digitChar.toNat < n.digitChar.toNat
  rw [Nat.toNat_digitChar_of_lt_ten hn,
    Nat.toNat_digitChar_of_lt_ten (by omega)]
  omega

/-- The last digit of a number stands behind those of its tenth. -/
theorem toDigits_of_ten_le {n : Nat} (h : 10 ≤ n) : Nat.toDigits 10 n
    = Nat.toDigits 10 (n / 10) ++ [(n % 10).digitChar] :=
  Nat.toDigits_of_base_le (by decide) h

/-- Numbers with as many digits are in the order of their digits. -/
theorem toDigits_lex {m n : Nat} (h : m < n)
    (hlen : (Nat.toDigits 10 m).length = (Nat.toDigits 10 n).length) :
    List.Lex (· < ·) (Nat.toDigits 10 m) (Nat.toDigits 10 n) := by
  induction n using Nat.strongRecOn generalizing m with
  | ind n ih =>
      by_cases hn : n < 10
      · rw [Nat.toDigits_of_lt_base hn, Nat.toDigits_of_lt_base (by omega)]
        exact .rel (digitChar_lt h hn)
      · have hpos : 0 < (Nat.toDigits 10 (n / 10)).length :=
          Nat.length_toDigits_pos
        have hm : 10 ≤ m := by
          by_contra hm
          rw [toDigits_of_ten_le (n := n) (by omega),
            Nat.toDigits_of_lt_base (n := m) (by omega), List.length_append,
            List.length_singleton, List.length_singleton] at hlen
          omega
        rw [toDigits_of_ten_le hm,
          toDigits_of_ten_le (n := n) (by omega)] at hlen ⊢
        have hlen' : (Nat.toDigits 10 (m / 10)).length
            = (Nat.toDigits 10 (n / 10)).length := by simpa using hlen
        -- Either the digits in front differ, or the last ones do.
        by_cases hfront : m / 10 < n / 10
        · have hlex := ih (n / 10) (by omega) hfront hlen'
          exact lex_append hlex hlen' _ _
        · have hsame : m / 10 = n / 10 := by omega
          rw [hsame]
          exact List.Lex.append_left _
            (.rel (digitChar_lt (by omega) (by omega))) _

/-- The byte of a digit is its code point. -/
theorem utf8EncodeChar_digit {c : Char} (h : c.isDigit) :
    String.utf8EncodeChar c = [c.toNat.toUInt8] := by
  rw [String.utf8EncodeChar_eq_singleton (utf8Size_digit h)]
  rfl

/-- The bytes of a text of digits are its characters. -/
theorem bytes_digits {l : List Char} (h : ∀ c ∈ l, c.isDigit) :
    (String.ofList l).toUTF8.data.toList
      = l.map fun c => c.toNat.toUInt8 := by
  have hflat : ∀ l : List Char, (∀ c ∈ l, c.isDigit) →
      l.flatMap String.utf8EncodeChar = l.map fun c => c.toNat.toUInt8 := by
    intro l h
    induction l with
    | nil => rfl
    | cons c l ih =>
        rw [List.flatMap_cons, utf8EncodeChar_digit (h c List.mem_cons_self),
          ih fun d hd => h d (List.mem_cons_of_mem _ hd)]
        rfl
  simp [List.utf8Encode, hflat l h]

/-- A smaller list stays smaller under a map that keeps the order of its items.
-/
theorem lex_map {α β : Type} {r : α → α → Prop} {q : β → β → Prop}
    (f : α → β) {a b : List α} (h : List.Lex r a b)
    (hf : ∀ x ∈ a, ∀ y ∈ b, r x y → q (f x) (f y)) :
    List.Lex q (a.map f) (b.map f) := by
  induction h with
  | nil => exact .nil
  | rel h => exact .rel (hf _ List.mem_cons_self _ List.mem_cons_self h)
  | cons _ ih =>
      exact .cons (ih fun x hx y hy =>
        hf x (List.mem_cons_of_mem _ hx) y (List.mem_cons_of_mem _ hy))

/-- A smaller digit is a smaller byte. -/
theorem digit_byte_lt {c d : Char} (hc : c.isDigit) (hd : d.isDigit)
    (h : c < d) : c.toNat.toUInt8 < d.toNat.toUInt8 := by
  simp only [Char.isDigit, ge_iff_le, Bool.and_eq_true, decide_eq_true_eq,
    UInt32.le_iff_toNat_le] at hc hd
  rw [Char.lt_def, UInt32.lt_iff_toNat_lt] at h
  rw [UInt8.lt_iff_toNat_lt]
  have hc' : c.toNat ≤ 57 := hc.2
  have hd' : d.toNat ≤ 57 := hd.2
  have hcd : c.toNat < d.toNat := h
  simp only [Nat.toUInt8, UInt8.toNat_ofNat']
  omega

/-- Texts of digits that are in order have their bytes in order. -/
theorem bytes_lex {a b : List Char} (h : List.Lex (· < ·) a b)
    (ha : ∀ c ∈ a, c.isDigit) (hb : ∀ c ∈ b, c.isDigit) :
    List.Lex (· < ·) (String.ofList a).toUTF8.data.toList
      (String.ofList b).toUTF8.data.toList := by
  rw [bytes_digits ha, bytes_digits hb]
  exact lex_map _ h fun x hx y hy hxy =>
    digit_byte_lt (ha x hx) (hb y hy) hxy

/-- **Of two files with the same stem the one with the larger stamp comes
later,** if no stamp is negative and both have as many digits. -/
theorem byteLess_fileName {name name' : String} {s s' : Int64}
    (hstem : fileStem name = fileStem name') (hs : 0 ≤ s.toInt)
    (hlt : s < s')
    (hlen : (stampText s).length = (stampText s').length) :
    ByteLess (fileName name s) (fileName name' s') := by
  rw [Int64.lt_iff_toInt_lt] at hlt
  obtain ⟨m, hm⟩ := Int.eq_ofNat_of_zero_le hs
  obtain ⟨n, hn⟩ := Int.eq_ofNat_of_zero_le (Int.le_trans hs (Int.le_of_lt hlt))
  have htext : stampText s = String.ofList (Nat.toDigits 10 m) := by
    rw [stampText, hm]
    exact Nat.repr_eq_ofList_toDigits
  have htext' : stampText s' = String.ofList (Nat.toDigits 10 n) := by
    rw [stampText, hn]
    exact Nat.repr_eq_ofList_toDigits
  have hdigit : ∀ k, ∀ c ∈ Nat.toDigits 10 k, c.isDigit := fun _ _ hc =>
    Nat.isDigit_of_mem_toDigits (by decide) (by decide) hc
  rw [htext, htext', String.length_ofList, String.length_ofList] at hlen
  have hlex := bytes_lex (toDigits_lex (by omega) hlen) (hdigit m) (hdigit n)
  rw [ByteLess, fileName, fileName, hstem, htext, htext']
  simp only [bytes_append, List.append_assoc]
  -- The stem and the dot are common, and the digits decide.
  refine List.Lex.append_left _ (List.Lex.append_left _ ?_ _) _
  refine lex_append hlex ?_ _ _
  rw [bytes_digits (hdigit m), bytes_digits (hdigit n)]
  simpa using hlen

/-! ## The files of one clock -/

/-- The names of features with the stamps that a new clock gives them, each
for the reading that comes with the name. -/
def stamped (writes : List (String × Int64)) : List (String × Int64) :=
  (writes.map Prod.fst).zip (StampClock.new.stamps (writes.map Prod.snd))

/-- The stamps that are given out are all of those of the readings. -/
theorem stamped_snd (writes : List (String × Int64)) :
    (stamped writes).map Prod.snd
      = StampClock.new.stamps (writes.map Prod.snd) :=
  List.map_snd_zip (by simp [StampClock.length_stamps])

/-- If there is room for them, later files have later stamps. -/
theorem stamped_increase {writes : List (String × Int64)}
    (h : StampClock.Roomy (writes.map Prod.snd)) :
    (stamped writes).Pairwise (fun a b => a.2 < b.2) := by
  have hstamps := StampClock.stamps_increase h
  rwa [← stamped_snd, List.pairwise_map] at hstamps

/-- **Names in one run never collide.**  Let any names be stamped by one
clock, at readings with room.  Every name gets a stamp; the names of the
files are distinct; stem and stamp can be read off each of them; and of two
files with the same stem the later one comes behind the other in the order
of bytes, if their stamps are not negative and have as many digits. -/
theorem stamped_distinct {writes : List (String × Int64)}
    (h : StampClock.Roomy (writes.map Prod.snd)) :
    let files := (stamped writes).map fun (name, s) => fileName name s
    files.length = writes.length
    ∧ files.Nodup
    ∧ files.map readFileName
      = (stamped writes).map (fun (name, s) => (fileStem name, s))
    ∧ (stamped writes).Pairwise fun (name, s) (name', s') =>
        fileStem name = fileStem name' → 0 ≤ s.toInt → 0 ≤ s'.toInt →
        (stampText s).length = (stampText s').length →
        ByteLess (fileName name s) (fileName name' s') := by
  intro files
  have hincrease := stamped_increase h
  refine ⟨?_, ?_, ?_, ?_⟩
  · simp [files, stamped, StampClock.length_stamps]
  · rw [List.nodup_iff_pairwise_ne, List.pairwise_map]
    refine hincrease.imp fun {a b} hlt heq => ?_
    have hread := congrArg (fun file => (readFileName file).2) heq
    simp only [readFileName_fileName] at hread
    exact Int64.ne_of_lt hlt hread
  · simp only [files, List.map_map]
    exact List.map_congr_left fun a _ => readFileName_fileName a.1 a.2
  · exact hincrease.imp fun {a b} hlt hstem hs _ hlen =>
      byteLess_fileName hstem hs hlt hlen

/-- Three files, two of them with the stem `a.1`, at a clock that goes
back. -/
theorem stamped_distinct_going_back :
    StampClock.Roomy [5, 3, -7]
    ∧ ((stamped [("a.1", 5), ("b", 3), ("a.1", -7)]).map fun (name, s) =>
        fileName name s).Nodup
    ∧ ByteLess (fileName "a.1" 5) (fileName "a.1" 7) := by
  have hroom : StampClock.Roomy [5, 3, -7] := by
    simp [StampClock.Roomy]
  have hall := @stamped_distinct [("a.1", 5), ("b", 3), ("a.1", -7)] hroom
  refine ⟨hroom, hall.2.1, ?_⟩
  have hpair := hall.2.2.2
  have hstamped : stamped [("a.1", 5), ("b", 3), ("a.1", -7)]
      = [("a.1", 5), ("b", 6), ("a.1", 7)] := by decide
  rw [hstamped] at hpair
  obtain ⟨hfirst, -⟩ := List.pairwise_cons.mp hpair
  exact hfirst ("a.1", 7) (by simp) rfl (by decide) (by decide) (by decide)

end SoloScenario.Output
