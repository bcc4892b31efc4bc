import Mathlib
import SoloScenario.TagExpr.Scan

/-!
# The lexical rules of tag expressions

`Lexes s ts` says, without a scanner, that the text `s` is made of the
tokens `ts`: a rule for each kind of token, and one for blanks.  A tag
and a word have to be as long as possible, which is said of the text
behind them (`TagEnds`, `WordEnds`).

* `lexes_iff_yields` — the scan finds exactly these tokens;
* `Lexes.append` — two texts may be put one behind the other, where the
  second does not go on with a word or tag of the first.
-/

namespace SoloScenario.TagExpr

/-- Characters as they are written in a tag, and what they stand for: a
backslash with any character behind it, or a character that neither ends
a tag nor is a backslash. -/
inductive Written : List Char → List Char → Prop
  | nil : Written [] []
  | escaped (c : Char) {w s : List Char} (h : Written w s) :
      Written ('\\' :: c :: w) (c :: s)
  | plain {c : Char} (hends : endsTag c = false) (hslash : c ≠ '\\')
      {w s : List Char} (h : Written w s) : Written (c :: w) (c :: s)

/-- A tag may end in front of this text. -/
def TagEnds (s : List Char) : Prop :=
  ∀ c ∈ s.head?, endsTag c = true

/-- A word ends in front of this text. -/
def WordEnds (s : List Char) : Prop :=
  ∀ c ∈ s.head?, c.isAlpha = false

/-- The word spells the operator, in any mix of cases. -/
def Operator.SpelledBy (op : Operator) (word : List Char) : Prop :=
  (∀ c ∈ word, c.isAlpha = true) ∧ word.map Char.toLower = op.word.toList

/-- The text is made of these tokens. -/
inductive Lexes : List Char → List Token → Prop
  | nil : Lexes [] []
  | blank {c : Char} (hc : Text.isBlank c = true) {s : List Char}
      {ts : List Token} (h : Lexes s ts) : Lexes (c :: s) ts
  | openParen {s : List Char} {ts : List Token} (h : Lexes s ts) :
      Lexes ('(' :: s) (.openParen :: ts)
  | closeParen {s : List Char} {ts : List Token} (h : Lexes s ts) :
      Lexes (')' :: s) (.closeParen :: ts)
  | word {op : Operator} {w s : List Char} (hop : op.SpelledBy w)
      (hends : WordEnds s) {ts : List Token} (h : Lexes s ts) :
      Lexes (w ++ s) (.operator op :: ts)
  | tag {w name s : List Char} (hw : Written w name) (hne : name ≠ [])
      (hends : TagEnds s) {ts : List Token} (h : Lexes s ts) :
      Lexes ('@' :: (w ++ s)) (.tag (String.ofList ('@' :: name)) :: ts)

/-- The written form of one token. -/
inductive Lexeme : List Char → Token → Prop
  | openParen : Lexeme ['('] .openParen
  | closeParen : Lexeme [')'] .closeParen
  | word {op : Operator} {w : List Char} (hop : op.SpelledBy w) :
      Lexeme w (.operator op)
  | tag {w name : List Char} (hw : Written w name) (hne : name ≠ []) :
      Lexeme ('@' :: w) (.tag (String.ofList ('@' :: name)))

/-- The written form of a token may end in front of this text. -/
def Token.EndsBefore : Token → List Char → Prop
  | .tag _, s => TagEnds s
  | .operator _, s => WordEnds s
  | _, _ => True

/-- A written token in front of a text. -/
theorem Lexes.cons {w s : List Char} {t : Token} {ts : List Token}
    (hw : Lexeme w t) (hends : t.EndsBefore s) (h : Lexes s ts) :
    Lexes (w ++ s) (t :: ts) := by
  cases hw with
  | openParen => exact .openParen h
  | closeParen => exact .closeParen h
  | word hop => exact .word hop hends h
  | tag hw hne => exact .tag hw hne hends h

/-! ## Written tags -/

/-- What is written can be read in one way only, and reading it is
`unescape?`. -/
theorem Written.unescape? {w name : List Char} (h : Written w name) :
    unescape? w = some name := by
  induction h with
  | nil => rfl
  | escaped c _ ih => simp [TagExpr.unescape?, ih]
  | @plain c _ hslash w s _ ih =>
      rw [TagExpr.unescape?.eq_4 c w (fun h _ => hslash h)
        (fun _ _ h _ => hslash h), ih]
      rfl

/-- A written tag goes on up to the first character that ends it. -/
theorem Written.spanTag {w name s : List Char} (h : Written w name)
    (hs : TagEnds s) : spanTag (w ++ s) = (w, s) := by
  induction h with
  | nil =>
      cases s with
      | nil => rfl
      | cons c s =>
          have hc : endsTag c = true := hs c rfl
          have hslash : c ≠ '\\' := by rintro rfl; revert hc; decide
          rw [List.nil_append,
            TagExpr.spanTag.eq_3 c s (fun _ _ h _ => hslash h), if_pos hc]
  | escaped c _ ih => simp [TagExpr.spanTag, ih]
  | @plain c hends hslash w name _ ih =>
      rw [List.cons_append,
        TagExpr.spanTag.eq_3 c (w ++ s) (fun _ _ h _ => hslash h),
        if_neg (by simp [hends]), ih]

/-- What `spanTag` takes is a written tag, provided its escapes are
complete. -/
theorem written_spanTag (s : List Char) {name : List Char}
    (h : unescape? (spanTag s).1 = some name) : Written (spanTag s).1 name := by
  fun_induction TagExpr.spanTag s generalizing name with
  | case1 =>
      obtain rfl : [] = name := by simpa [TagExpr.unescape?] using h
      exact .nil
  | case2 c s ih =>
      obtain ⟨t, ht, rfl⟩ :=
        Option.map_eq_some_iff.mp (by simpa [TagExpr.unescape?] using h)
      exact .escaped c (ih ht)
  | case3 =>
      obtain rfl : [] = name := by simpa [TagExpr.unescape?] using h
      exact .nil
  | case4 c s hslash hends ih =>
      by_cases hc : c = '\\'
      · subst hc
        cases s with
        | nil => simp [TagExpr.spanTag, TagExpr.unescape?] at h
        | cons d s => exact absurd rfl (hslash d s rfl)
      · rw [TagExpr.unescape?.eq_4 c _ (fun h _ => hc h)
          (fun _ _ h _ => hc h)] at h
        obtain ⟨t, ht, rfl⟩ := Option.map_eq_some_iff.mp h
        exact .plain (by simpa using hends) hc (ih ht)

/-- The name of a tag goes as far as it can. -/
theorem tagEnds_spanTag (s : List Char) : TagEnds (spanTag s).2 := by
  fun_induction TagExpr.spanTag s with
  | case1 => simp [TagEnds]
  | case2 c s ih => exact ih
  | case3 c s _ hends => simpa [TagEnds] using hends
  | case4 c s _ _ ih => exact ih

/-! ## Words -/

/-- The words of an operator are those that spell it, in whatever case. -/
theorem operator?_eq_some_iff {w : List Char} {op : Operator} :
    Cursor.operator? w = some op ↔ w.map Char.toLower = op.word.toList := by
  unfold Cursor.operator?
  constructor
  · intro h
    split at h
    all_goals
      simp only [Option.some.injEq, reduceCtorEq] at h
      try subst h
      try assumption
  · intro h
    rw [h]
    cases op <;> rfl

/-- A word goes as far as it can. -/
theorem wordEnds_dropWhile (s : List Char) :
    WordEnds (s.dropWhile Char.isAlpha) := by
  intro c hc
  have h := List.head?_dropWhile_not Char.isAlpha s
  rw [Option.mem_def.mp hc] at h
  simpa using h

/-- Letters in front of the end of a word are a maximal run. -/
theorem span_isAlpha {w s : List Char} (hw : ∀ c ∈ w, c.isAlpha = true)
    (hs : WordEnds s) :
    (w ++ s).takeWhile Char.isAlpha = w
      ∧ (w ++ s).dropWhile Char.isAlpha = s := by
  rw [List.takeWhile_append_of_pos hw, List.dropWhile_append_of_pos hw]
  cases s with
  | nil => simp
  | cons c s =>
      have hc : c.isAlpha = false := hs c rfl
      simp [hc]

/-- An operator is not spelled by nothing. -/
theorem Operator.SpelledBy.ne_nil {op : Operator} {w : List Char}
    (h : op.SpelledBy w) : w ≠ [] := by
  rintro rfl
  have hw := h.2
  cases op <;> revert hw <;> decide

/-! ## One token -/

namespace Cursor

/-- Only the blanks in front of a place keep it from being the start of a
token. -/
theorem next_blank {c : Char} (hc : Text.isBlank c = true) (offset : Nat)
    (s : List Char) :
    next ⟨offset, c :: s⟩ = next ⟨offset + c.utf8Size, s⟩ := by
  simp [next, skipBlanks, Text.trimStart, hc, byteLength, Nat.add_assoc]

/-- A character that is no blank starts a token where it stands. -/
theorem next_of_not_blank {c : Char} (hc : Text.isBlank c = false)
    (offset : Nat) (s : List Char) :
    next ⟨offset, c :: s⟩ = readToken offset (c :: s) := by
  simp [next, skipBlanks, Text.trimStart, hc, byteLength]

/-- A letter lies in one of two ranges. -/
theorem isAlpha_toNat {c : Char} (hc : c.isAlpha = true) :
    (65 ≤ c.toNat ∧ c.toNat ≤ 90) ∨ (97 ≤ c.toNat ∧ c.toNat ≤ 122) := by
  simp only [Char.isAlpha, Char.isUpper, Char.isLower, Bool.or_eq_true,
    Bool.and_eq_true, decide_eq_true_eq, ge_iff_le,
    UInt32.le_iff_toNat_le] at hc
  exact hc

/-- So a letter is no blank. -/
theorem isBlank_of_isAlpha {c : Char} (hc : c.isAlpha = true) :
    Text.isBlank c = false := by
  have hrange := isAlpha_toNat hc
  have hascii : c.toNat < 0x80 := by omega
  have h := Text.isBlank_ascii hascii
  cases hb : Text.isBlank c with
  | false => rfl
  | true => have := h.mp hb; omega

/-- A letter is none of the characters that are read otherwise. -/
theorem readToken_letter {c : Char} (hc : c.isAlpha = true) (offset : Nat)
    (s : List Char) :
    readToken offset (c :: s) = readWord offset (c :: s) := by
  have hat : c ≠ '@' := by rintro rfl; revert hc; decide
  have hopen : c ≠ '(' := by rintro rfl; revert hc; decide
  have hclose : c ≠ ')' := by rintro rfl; revert hc; decide
  rw [readToken, if_neg hat, if_neg hopen, if_neg hclose, if_pos hc]

/-- `w` is a token `t`, written in front of the place `behind`, that starts
at byte `offset`. -/
structure Found (offset : Nat) (t : Token) (behind : Cursor) (w : List Char) :
    Prop where
  lexeme : Lexeme w t
  ends : t.EndsBefore behind.rest
  offset : behind.offset = offset + byteLength w

/-- A tag that is read follows the rule for tags. -/
theorem found_of_readTag {offset start : Nat} {s : List Char} {t : Token}
    {behind : Cursor} (h : readTag offset s = .token start t behind) :
    start = offset
      ∧ ∃ w, Found offset t behind w ∧ '@' :: s = w ++ behind.rest := by
  simp only [readTag] at h
  split at h
  · simp at h
  · simp at h
  · next d name hname =>
      simp only [Step.token.injEq] at h
      obtain ⟨rfl, rfl, rfl⟩ := h
      refine ⟨rfl, '@' :: (spanTag s).1,
        ⟨.tag (written_spanTag s hname) (by simp), tagEnds_spanTag s, ?_⟩, ?_⟩
      · exact Nat.add_assoc ..
      · exact congrArg _ (spanTag_append s).symm

/-- A word that is read follows the rule for words. -/
theorem found_of_readWord {offset start : Nat} {s : List Char} {t : Token}
    {behind : Cursor} (h : readWord offset s = .token start t behind) :
    start = offset
      ∧ ∃ w, Found offset t behind w ∧ s = w ++ behind.rest := by
  simp only [readWord] at h
  split at h
  · next op hop =>
      simp only [Step.token.injEq] at h
      obtain ⟨rfl, rfl, rfl⟩ := h
      have hw : op.SpelledBy (s.takeWhile Char.isAlpha) :=
        ⟨List.all_eq_true.mp List.all_takeWhile, operator?_eq_some_iff.mp hop⟩
      exact ⟨rfl, _, ⟨.word hw, wordEnds_dropWhile s, rfl⟩,
        List.takeWhile_append_dropWhile.symm⟩
  · simp at h

/-- **Every token that is read follows the rule of its kind,** and starts
where it is read. -/
theorem found_of_readToken {offset start : Nat} {s : List Char} {t : Token}
    {behind : Cursor} (h : readToken offset s = .token start t behind) :
    start = offset
      ∧ ∃ w, Found offset t behind w ∧ s = w ++ behind.rest := by
  cases s with
  | nil => simp [readToken] at h
  | cons c s =>
      rw [readToken] at h
      split at h
      · next hat => exact hat ▸ found_of_readTag h
      · split at h
        · next hopen =>
            simp only [Step.token.injEq] at h
            obtain ⟨rfl, rfl, rfl⟩ := h
            exact ⟨rfl, ['('], ⟨.openParen, trivial, rfl⟩, hopen ▸ rfl⟩
        · split at h
          · next hclose =>
              simp only [Step.token.injEq] at h
              obtain ⟨rfl, rfl, rfl⟩ := h
              exact ⟨rfl, [')'], ⟨.closeParen, trivial, rfl⟩, hclose ▸ rfl⟩
          · split at h
            · exact found_of_readWord h
            · simp at h

/-- **A token that is read is a token of the text,** in front of those behind
it. -/
theorem lexes_of_readToken {offset start : Nat} {s : List Char} {t : Token}
    {behind : Cursor} (h : readToken offset s = .token start t behind)
    {ts : List Token} (hts : Lexes behind.rest ts) : Lexes s (t :: ts) := by
  obtain ⟨-, w, hw, rfl⟩ := found_of_readToken h
  exact .cons hw.lexeme hw.ends hts

/-- Blanks in front of a text do not matter. -/
theorem lexes_blanks {b s : List Char} {ts : List Token}
    (hb : ∀ c ∈ b, Text.isBlank c = true) (h : Lexes s ts) :
    Lexes (b ++ s) ts := by
  induction b with
  | nil => exact h
  | cons c b ih =>
      obtain ⟨hc, hb⟩ := List.forall_mem_cons.mp hb
      exact .blank hc (ih hb)

/-- What is passed as blank is blank. -/
theorem all_blank_takeWhile (s : List Char) :
    ∀ c ∈ s.takeWhile Text.isBlank, Text.isBlank c = true :=
  List.all_eq_true.mp List.all_takeWhile

/-- Blanks at the front make no difference. -/
theorem lexes_of_trimStart {s : List Char} {ts : List Token}
    (h : Lexes (Text.trimStart s) ts) : Lexes s ts := by
  rw [← List.takeWhile_append_dropWhile (p := Text.isBlank) (l := s)]
  exact lexes_blanks (all_blank_takeWhile s) h

/-- **A tag that is written is read** under its name. -/
theorem readTag_written {w name s : List Char} (hw : Written w name)
    (hne : name ≠ []) (hs : TagEnds s) (offset : Nat) :
    ∃ behind : Cursor, behind.rest = s ∧ readTag offset (w ++ s)
      = .token offset (.tag (String.ofList ('@' :: name))) behind := by
  cases name with
  | nil => exact absurd rfl hne
  | cons c name =>
      refine ⟨⟨offset + 1 + byteLength w, s⟩, rfl, ?_⟩
      simp [readTag, hw.spanTag hs, hw.unescape?]

/-- **An operator that is spelled is read.** -/
theorem readWord_spelled {op : Operator} {w s : List Char}
    (hop : op.SpelledBy w) (hs : WordEnds s) (offset : Nat) :
    ∃ behind : Cursor, behind.rest = s ∧ readWord offset (w ++ s)
      = .token offset (.operator op) behind := by
  refine ⟨⟨offset + byteLength w, s⟩, rfl, ?_⟩
  obtain ⟨htake, hdrop⟩ := span_isAlpha hop.1 hs
  simp [readWord, htake, hdrop, operator?_eq_some_iff.mpr hop.2]

end Cursor

/-! ## The scan -/

/-- The scan reaches the end of the text, and finds these tokens. -/
def Scan.Yields (scan : Scan) (ts : List Token) : Prop :=
  scan.tokens.map Prod.snd = ts ∧ ∃ offset, scan.ending = .ok offset

namespace Cursor

/-- What is scanned hangs on the next step alone. -/
theorem scan_congr {c d : Cursor} (h : c.next = d.next) : c.scan = d.scan := by
  rw [Cursor.scan, Cursor.scan]
  split <;> split <;> simp_all

/-- Where nothing is left the scan is at its end. -/
theorem scan_of_finished {c : Cursor} {offset : Nat}
    (h : c.next = .finished offset) : c.scan = ⟨[], .ok offset⟩ := by
  rw [Cursor.scan]
  split <;> simp_all

/-- Where a step fails the scan ends with the error. -/
theorem scan_of_failed {c : Cursor} {error : SyntaxError}
    (h : c.next = .failed error) : c.scan = ⟨[], .error error⟩ := by
  rw [Cursor.scan]
  split <;> simp_all

/-- A token is put in front of those behind it. -/
theorem scan_of_token {c : Cursor} {start : Nat} {t : Token} {behind : Cursor}
    (h : c.next = .token start t behind) :
    c.scan = ⟨(start, t) :: behind.scan.tokens, behind.scan.ending⟩ := by
  rw [Cursor.scan]
  split <;> simp_all

/-- Nothing but the end of a text is read as its end. -/
theorem eq_nil_of_readToken {offset behind : Nat} {s : List Char}
    (h : readToken offset s = .finished behind) : s = [] := by
  cases s with
  | nil => rfl
  | cons c s =>
      rw [readToken] at h
      split at h
      · simp only [readTag] at h
        split at h <;> simp at h
      · split at h
        · simp at h
        · split at h
          · simp at h
          · split at h
            · simp only [readWord] at h
              split at h <;> simp at h
            · simp at h

/-- What a scan finds follows the rules. -/
theorem lexes_of_yields (c : Cursor) {ts : List Token}
    (h : c.scan.Yields ts) : Lexes c.rest ts := by
  induction c using Cursor.scan.induct generalizing ts with
  | case1 c offset hnext =>
      rw [scan_of_finished hnext] at h
      obtain ⟨rfl, -⟩ := h
      have hrest : Text.trimStart c.rest = [] := eq_nil_of_readToken hnext
      exact lexes_of_trimStart (hrest ▸ .nil)
  | case2 c error hnext =>
      rw [scan_of_failed hnext] at h
      obtain ⟨offset, hoff⟩ := h.2
      simp at hoff
  | case3 c start t behind hnext ih =>
      rw [scan_of_token hnext] at h
      obtain ⟨rfl, hend⟩ := h
      exact lexes_of_trimStart (lexes_of_readToken hnext (ih ⟨rfl, hend⟩))

/-- It is one token more in what the scan yields. -/
theorem yields_of_token {c : Cursor} {start : Nat} {t : Token}
    {behind : Cursor} (h : c.next = .token start t behind) {ts : List Token}
    (hts : behind.scan.Yields ts) : c.scan.Yields (t :: ts) := by
  obtain ⟨rfl, hend⟩ := hts
  rw [scan_of_token h]
  exact ⟨rfl, hend⟩

end Cursor

/-- What follows the rules is found by a scan, wherever it starts. -/
theorem Lexes.yields {s : List Char} {ts : List Token} (h : Lexes s ts)
    (offset : Nat) : (Cursor.mk offset s).scan.Yields ts := by
  induction h generalizing offset with
  | nil =>
      have hnext : Cursor.next ⟨offset, []⟩ = .finished offset := rfl
      rw [Cursor.scan_of_finished hnext]
      exact ⟨rfl, offset, rfl⟩
  | @blank c hc s ts _ ih =>
      rw [Cursor.scan_congr (Cursor.next_blank hc offset s)]
      exact ih _
  | @openParen s ts _ ih =>
      exact Cursor.yields_of_token
        (Cursor.next_of_not_blank (by decide) offset s) (ih _)
  | @closeParen s ts _ ih =>
      exact Cursor.yields_of_token
        (Cursor.next_of_not_blank (by decide) offset s) (ih _)
  | @word op w s hop hends ts _ ih =>
      obtain ⟨behind, rfl, hread⟩ := Cursor.readWord_spelled hop hends offset
      -- The first letter decides which of the readers has its turn.
      cases w with
      | nil => exact absurd rfl hop.ne_nil
      | cons c w =>
          have hc : c.isAlpha = true := hop.1 c List.mem_cons_self
          have hnext := Cursor.next_of_not_blank
            (Cursor.isBlank_of_isAlpha hc) offset (w ++ behind.rest)
          rw [Cursor.readToken_letter hc, ← List.cons_append, hread] at hnext
          exact Cursor.yields_of_token hnext (ih behind.offset)
  | @tag w name s hw hne hends ts _ ih =>
      obtain ⟨behind, rfl, hread⟩ :=
        Cursor.readTag_written hw hne hends offset
      have hnext := Cursor.next_of_not_blank (c := '@') (by decide) offset
        (w ++ behind.rest)
      rw [Cursor.readToken, if_pos rfl, hread] at hnext
      exact Cursor.yields_of_token hnext (ih behind.offset)

/-- **The scan is the lexical rules.**  It reaches the end of a text and
finds these tokens exactly where the text is made of them. -/
theorem lexes_iff_yields {s : List Char} {ts : List Token} :
    Lexes s ts ↔ (scan s).Yields ts :=
  ⟨fun h => h.yields 0, Cursor.lexes_of_yields (.ofText s)⟩

/-! ## Texts behind one another -/

/-- A text behind another one goes on with none of its words and tags. -/
def Separate (s : List Char) : Prop :=
  TagEnds s ∧ WordEnds s

/-- The tokens of two texts, where the second text goes on with nothing
of the first. -/
theorem Lexes.append {s r : List Char} {ts us : List Token} (h : Lexes s ts)
    (hr : Lexes r us) (hsep : Separate r) : Lexes (s ++ r) (ts ++ us) := by
  induction h with
  | nil => exact hr
  | blank hc _ ih => exact .blank hc ih
  | openParen _ ih => exact .openParen ih
  | closeParen _ ih => exact .closeParen ih
  | @word op w s hop hends ts _ ih =>
      rw [List.append_assoc]
      refine .word hop (fun c hc => ?_) ih
      cases s with
      | nil => exact hsep.2 c hc
      | cons d s => exact hends c hc
  | @tag w name s hw hne hends ts _ ih =>
      rw [List.cons_append, List.append_assoc]
      refine .tag hw hne (fun c hc => ?_) ih
      cases s with
      | nil => exact hsep.1 c hc
      | cons d s => exact hends c hc

end SoloScenario.TagExpr
