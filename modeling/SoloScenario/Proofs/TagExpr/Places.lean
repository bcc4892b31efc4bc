import SoloScenario.Proofs.TagExpr.Lexical

/-!
# Where the tokens of a text stand

The scan tells every token with the byte where it starts.  These offsets
are right (`scan_places`): what is in front of the byte is made of the
tokens before, and the token begins what is behind it.  The end of a text
is told in the same way, as the symbol `none` behind the tokens.

A scan that does not get to the end has met a text that begins no token.
There are four kinds (`BadToken`), one for each fault that a token by
itself can have, and the offset of the fault follows from where that text
starts (`scan_fails`).
-/

namespace SoloScenario.TagExpr

/-- The library counts the same bytes. -/
theorem utf8Len_eq (s : List Char) : String.utf8Len s = byteLength s := by
  induction s with
  | nil => rfl
  | cons c s ih => rw [String.utf8Len_cons, ih, byteLength, Nat.add_comm]

/-! ## Symbols -/

/-- What a scan meets, each with the byte where it starts: its tokens and,
where it gets there, the end of the text. -/
def Scan.symbols (s : Scan) : List (Nat × Option Token) :=
  s.tokens.map (fun placed => (placed.1, some placed.2))
    ++ match s.ending with
      | .ok offset => [(offset, none)]
      | .error _ => []

/-- The symbol that a text begins with. -/
inductive Begins : List Char → Option Token → Prop
  | token {w s : List Char} {t : Token} (hw : Lexeme w t)
      (hends : t.EndsBefore s) : Begins (w ++ s) (some t)
  | finish : Begins [] none

/-- A symbol stands at this byte of a text, behind these tokens. -/
def Stands (text : List Char) (ts : List Token) (start : Nat)
    (symbol : Option Token) : Prop :=
  ∃ before behind, text = before ++ behind ∧ start = byteLength before
    ∧ Lexes before ts ∧ Begins behind symbol

/-- What ends in front of a text ends in front of its beginning. -/
theorem Token.EndsBefore.of_append {t : Token} {s r : List Char}
    (h : t.EndsBefore (s ++ r)) : t.EndsBefore s := by
  cases s with
  | nil => cases t <;> simp [Token.EndsBefore, TagEnds, WordEnds]
  | cons c s => cases t <;> exact h

namespace Cursor

/-- A text from its blanks on. -/
theorem blanks_append (s : List Char) :
    s.takeWhile Text.isBlank ++ Text.trimStart s = s :=
  List.takeWhile_append_dropWhile

/-- **One token.**  The tokens of what is behind a token, with that token
in front of them. -/
theorem lexes_of_next {c behind : Cursor} {start : Nat} {t : Token}
    (h : c.next = .token start t behind) {before r : List Char}
    (hrest : behind.rest = before ++ r) {ts : List Token}
    (hts : Lexes before ts) :
    ∃ front, c.rest = front ++ r ∧ Lexes front (t :: ts)
      ∧ c.offset + byteLength front = behind.offset + byteLength before := by
  obtain ⟨-, w, hw, hs⟩ := found_of_readToken h
  have hends := hw.ends
  rw [hrest] at hends hs
  refine ⟨c.rest.takeWhile Text.isBlank ++ (w ++ before), ?_,
    lexes_blanks (all_blank_takeWhile _) (.cons hw.lexeme hends.of_append hts),
    ?_⟩
  · rw [List.append_assoc, List.append_assoc, ← hs]
    exact (blanks_append c.rest).symm
  · rw [hw.offset, byteLength_append, byteLength_append]
    simp only [skipBlanks, Nat.add_assoc]

/-- The blanks at the front hold no token. -/
theorem lexes_front_blanks (s : List Char) :
    Lexes (s.takeWhile Text.isBlank) [] := by
  simpa using lexes_blanks (all_blank_takeWhile s) .nil

/-- Every symbol stands where the scan has it. -/
theorem stands_of_scan (c : Cursor) {k start : Nat} {symbol : Option Token}
    (h : c.scan.symbols[k]? = some (start, symbol)) :
    ∃ before behind, c.rest = before ++ behind
      ∧ start = c.offset + byteLength before
      ∧ Lexes before ((c.scan.tokens.take k).map Prod.snd)
      ∧ Begins behind symbol := by
  induction c using Cursor.scan.induct generalizing k with
  | case1 c offset hnext =>
      rw [scan_of_finished hnext] at h ⊢
      cases k with
      | succ k => simp [Scan.symbols] at h
      | zero =>
          have hnil : Text.trimStart c.rest = [] := eq_nil_of_readToken hnext
          rw [next, skipBlanks, hnil] at hnext
          obtain rfl := Step.finished.inj hnext
          obtain ⟨rfl, rfl⟩ := Prod.mk.inj (Option.some.inj h)
          exact ⟨_, _, (blanks_append c.rest).symm, rfl,
            lexes_front_blanks c.rest, hnil ▸ .finish⟩
  | case2 c error hnext =>
      rw [scan_of_failed hnext] at h
      simp [Scan.symbols] at h
  | case3 c start' t behind hnext ih =>
      rw [scan_of_token hnext] at h ⊢
      cases k with
      | zero =>
          obtain ⟨rfl, w, hw, hs⟩ := found_of_readToken hnext
          have hs : Text.trimStart c.rest = w ++ behind.rest := hs
          obtain ⟨rfl, rfl⟩ := Prod.mk.inj (Option.some.inj h)
          refine ⟨_, _, (blanks_append c.rest).symm, rfl,
            lexes_front_blanks c.rest, ?_⟩
          exact hs ▸ .token hw.lexeme hw.ends
      | succ k =>
          obtain ⟨before, r, hrest, rfl, hts, hbegins⟩ := ih h
          obtain ⟨front, hfront, hlex, hlength⟩ :=
            lexes_of_next hnext hrest hts
          exact ⟨front, r, hfront, hlength.symm, hlex, hbegins⟩

end Cursor

/-- **The tokens of a text, and its end, stand where the scan has them.** -/
theorem scan_places {text : List Char} {k start : Nat}
    {symbol : Option Token}
    (h : (scan text).symbols[k]? = some (start, symbol)) :
    Stands text (((scan text).tokens.take k).map Prod.snd) start symbol := by
  obtain ⟨before, behind, htext, hstart, hts, hbegins⟩ :=
    Cursor.stands_of_scan (.ofText text) h
  exact ⟨before, behind, htext, hstart.trans (Nat.zero_add _), hts, hbegins⟩

/-! ## Bad tokens -/

/-- A text that begins no token, and what is wrong with it. -/
inductive BadToken : List Char → Fault → Prop
  | character {c : Char} (hblank : Text.isBlank c = false)
      (hletter : c.isAlpha = false) (hat : c ≠ '@') (hopen : c ≠ '(')
      (hclose : c ≠ ')') (s : List Char) :
      BadToken (c :: s) (.unexpectedCharacter c)
  | word {w s : List Char} (hne : w ≠ [])
      (hletters : ∀ c ∈ w, c.isAlpha = true) (hends : WordEnds s)
      (hop : ∀ op : Operator, ¬ op.SpelledBy w) :
      BadToken (w ++ s) (.unexpectedWord (String.ofList w))
  | name {s : List Char} (hends : TagEnds s) :
      BadToken ('@' :: s) .missingTagName
  | escape {w name : List Char} (hw : Written w name) :
      BadToken ('@' :: (w ++ ['\\'])) .danglingEscape

/-- The byte where a bad token is shown that starts at byte `start`: where
it starts, or behind its `@` if that is all there is, or where the text
ends if that is what is wrong. -/
def shownAt (start : Nat) (bad : List Char) : Fault → Nat
  | .missingTagName => start + 1
  | .danglingEscape => start + byteLength bad
  | _ => start

/-- Only a backslash at the end of the text cannot be read. -/
theorem written_of_unescape?_eq_none {s : List Char}
    (h : unescape? (spanTag s).1 = none) :
    (spanTag s).1 = s ∧ ∃ w name, Written w name ∧ s = w ++ ['\\'] := by
  fun_induction TagExpr.spanTag s with
  | case1 => simp [unescape?] at h
  | case2 c s ih =>
      obtain ⟨hself, w, name, hw, rfl⟩ := ih (by simpa [unescape?] using h)
      exact ⟨by rw [hself], _, _, .escaped c hw, rfl⟩
  | case3 => simp [unescape?] at h
  | case4 c s hslash hends ih =>
      by_cases hc : c = '\\'
      · subst hc
        cases s with
        | nil => exact ⟨rfl, [], [], .nil, rfl⟩
        | cons d s => exact absurd rfl (hslash d s rfl)
      · rw [unescape?.eq_4 c _ (fun h _ => hc h) (fun _ _ h _ => hc h)] at h
        obtain ⟨hself, w, name, hw, rfl⟩ := ih (by simpa using h)
        exact ⟨by rw [hself], _, _, .plain (by simpa using hends) hc hw, rfl⟩

/-- A tag without a name ends behind its `@`. -/
theorem tagEnds_of_unescape?_eq_nil {s : List Char}
    (h : unescape? (spanTag s).1 = some []) : TagEnds s := by
  have hw := written_spanTag s h
  have hs := spanTag_append s
  generalize (spanTag s).1 = w at hw hs
  cases hw
  exact hs ▸ tagEnds_spanTag s

namespace Cursor

/-- A tag that cannot be read is a bad token. -/
theorem badToken_of_readTag {start : Nat} {s : List Char} {error : SyntaxError}
    (h : readTag start s = .failed error) :
    BadToken ('@' :: s) error.fault
      ∧ error.offset = shownAt start ('@' :: s) error.fault := by
  simp only [readTag] at h
  split at h
  · next hnone =>
      obtain rfl := Step.failed.inj h
      obtain ⟨hself, w, name, hw, rfl⟩ := written_of_unescape?_eq_none hnone
      refine ⟨.escape hw, ?_⟩
      rw [hself]
      exact Nat.add_assoc ..
  · next hnil =>
      obtain rfl := Step.failed.inj h
      exact ⟨.name (tagEnds_of_unescape?_eq_nil hnil), rfl⟩
  · simp at h

/-- A word that cannot be read is a bad token. -/
theorem badToken_of_readWord {start : Nat} {s : List Char} {c : Char}
    {error : SyntaxError} (hletter : c.isAlpha = true)
    (h : readWord start (c :: s) = .failed error) :
    BadToken (c :: s) error.fault
      ∧ error.offset = shownAt start (c :: s) error.fault := by
  simp only [readWord] at h
  split at h
  · simp at h
  · next hnone =>
      obtain rfl := Step.failed.inj h
      refine ⟨?_, rfl⟩
      have hbad : BadToken ((c :: s).takeWhile Char.isAlpha
          ++ (c :: s).dropWhile Char.isAlpha)
          (.unexpectedWord (String.ofList ((c :: s).takeWhile Char.isAlpha))) := by
        refine .word ?_ (List.all_eq_true.mp List.all_takeWhile)
          (wordEnds_dropWhile _) fun op hop => ?_
        · rw [List.takeWhile_cons_of_pos hletter]
          exact List.cons_ne_nil _ _
        · rw [operator?_eq_some_iff.mpr hop.2] at hnone
          exact absurd hnone (by simp)
      rwa [List.takeWhile_append_dropWhile] at hbad

/-- **What is read as a fault is a bad token,** and shown where it should
be. -/
theorem badToken_of_readToken {start : Nat} {s : List Char}
    {error : SyntaxError} (h : readToken start s = .failed error)
    (hblank : ∀ c ∈ s.head?, Text.isBlank c = false) :
    BadToken s error.fault ∧ error.offset = shownAt start s error.fault := by
  cases s with
  | nil => simp [readToken] at h
  | cons c s =>
      rw [readToken] at h
      split at h
      · next hat => exact hat ▸ badToken_of_readTag h
      · next hat =>
          split at h
          · simp at h
          · next hopen =>
              split at h
              · simp at h
              · next hclose =>
                  split at h
                  · next hletter => exact badToken_of_readWord hletter h
                  · next hletter =>
                      obtain rfl := Step.failed.inj h
                      exact ⟨.character (hblank c rfl)
                        (by simpa using hletter) hat hopen hclose s, rfl⟩

/-- Behind them stands no blank. -/
theorem head?_trimStart {s : List Char} :
    ∀ c ∈ (Text.trimStart s).head?, Text.isBlank c = false := by
  intro c hc
  have h := List.head?_dropWhile_not Text.isBlank s
  rw [Text.trimStart, Option.mem_def] at hc
  rw [hc] at h
  simpa using h

/-- A scan that fails has met a bad token behind those it has found. -/
theorem badToken_of_scan (c : Cursor) {error : SyntaxError}
    (h : c.scan.ending = .error error) :
    ∃ before bad, c.rest = before ++ bad
      ∧ Lexes before (c.scan.tokens.map Prod.snd)
      ∧ BadToken bad error.fault ∧ error.offset
        = shownAt (c.offset + byteLength before) bad error.fault := by
  induction c using Cursor.scan.induct with
  | case1 c offset hnext =>
      rw [scan_of_finished hnext] at h
      simp at h
  | case2 c error' hnext =>
      rw [scan_of_failed hnext] at h ⊢
      obtain rfl := Except.error.inj h
      obtain ⟨hbad, hoffset⟩ := badToken_of_readToken hnext head?_trimStart
      exact ⟨_, _, (blanks_append c.rest).symm, lexes_front_blanks c.rest,
        hbad, hoffset⟩
  | case3 c start t behind hnext ih =>
      rw [scan_of_token hnext] at h ⊢
      obtain ⟨before, bad, hrest, hts, hbad, hoffset⟩ := ih h
      obtain ⟨front, hfront, hlex, hlength⟩ := lexes_of_next hnext hrest hts
      exact ⟨front, bad, hfront, hlex, hbad, hlength ▸ hoffset⟩

end Cursor

/-- **A scan that fails has met a bad token,** behind the tokens that it
has found. -/
theorem scan_fails {text : List Char} {error : SyntaxError}
    (h : (scan text).ending = .error error) :
    ∃ before bad, text = before ++ bad
      ∧ Lexes before ((scan text).tokens.map Prod.snd)
      ∧ BadToken bad error.fault
      ∧ error.offset = shownAt (byteLength before) bad error.fault := by
  obtain ⟨before, bad, htext, hts, hbad, hoffset⟩ :=
    Cursor.badToken_of_scan (.ofText text) h
  exact ⟨before, bad, htext, hts, hbad, by
    simpa only [Cursor.ofText, Nat.zero_add] using hoffset⟩

end SoloScenario.TagExpr
