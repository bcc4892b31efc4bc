import SoloScenario.Proofs.TagExpr.ByteReader

/-!
# Calls make progress and cover the text

A text is read by one call after the other, each at the position that the
call before it has left (`position`).  The position is always on the border
of a character, and a call that answers with a token has moved it on, so
there are no more tokens than characters.  What is read as tokens lies in
the text one behind the other (`slices`), with nothing but blanks between.

* `answers_scan` — the calls answer what the scan finds;
* `covered` — a text whose end is reached is covered;
* `calls_cover` — all of this for every text.
-/

namespace SoloScenario.TagExpr

namespace ByteReader

variable (text : String)

/-- The position in front of the `k`-th call. -/
def position : Nat → Nat
  | 0 => 0
  | k + 1 => (call text (position k)).2

/-- What the `k`-th call answers. -/
def answer (k : Nat) : Answer :=
  (call text (position text k)).1

/-- From where a token starts to where the call leaves that reads it. -/
def slices : List (Nat × Nat) :=
  (scan text.toList).tokens.mapIdx fun k placed =>
    (placed.1, position text (k + 1))

/-- The answer that tells how a scan ends. -/
def Answer.ofEnding : Except SyntaxError Nat → Answer
  | .ok offset => .finished offset
  | .error error => .failed error.offset (.fault error.fault)

/-- What an answer may be, between two positions. -/
def Answer.Proper (before after : Nat) : Answer → Prop
  | .finished offset => offset = text.utf8ByteSize
  | .token start _ => before ≤ start ∧ start < after
  | .failed _ why => why.reason ≠ Failure.unexpectedEnd.reason
    ∧ why.reason ≠ Failure.brokenWord.reason

variable {text}

/-! ## Answers -/

/-- Texts that begin otherwise are different. -/
theorem ne_of_front {p b : String} (h : ¬ p.toList <+: b.toList)
    (r q : String) : p ++ r ≠ b ∧ p ++ r ++ q ≠ b := by
  constructor
  · rintro rfl
    rw [String.toList_append] at h
    exact h (List.prefix_append _ _)
  · rintro rfl
    rw [String.toList_append, String.toList_append, List.append_assoc] at h
    exact h (List.prefix_append _ _)

/-- No fault of a text reads like the answer of a guard. -/
theorem reason_fault (f : Fault) :
    f.reason ≠ "unexpected end" ∧ f.reason ≠ "invalid keyword boundaries" := by
  cases f with
  | missingTagName | danglingEscape | operandExpected | emptyParentheses
  | missingParenthesis => decide
  | unexpectedCharacter _ | unexpectedWord _ | operandExpectedAfter _ =>
      exact ⟨(ne_of_front (by decide) _ _).2,
        (ne_of_front (by decide) _ _).2⟩
  | operandExpectedBut _ | unexpectedToken _ =>
      exact ⟨(ne_of_front (by decide) _ "").1,
        (ne_of_front (by decide) _ "").1⟩

/-- What a token takes up of the text behind the blanks: at least one
character, from its start to the place behind it. -/
theorem taken_of_next {c behind : Cursor} {start : Nat} {t : Token}
    (h : c.next = .token start t behind) :
    start = c.skipBlanks.offset ∧ start < behind.offset
      ∧ ∃ w, c.skipBlanks.rest = w ++ behind.rest
        ∧ behind.offset = start + byteLength w := by
  obtain ⟨rfl, w, hw, hs⟩ := Cursor.found_of_readToken h
  have hshorter := Cursor.readToken_shorter h
  refine ⟨rfl, ?_, w, hs, hw.offset⟩
  cases w with
  | nil =>
      rw [hs] at hshorter
      exact absurd hshorter (Nat.lt_irrefl _)
  | cons d w =>
      have hpos := Char.utf8Size_pos d
      rw [hw.offset, byteLength]
      omega

/-- **What agrees with a cursor's step is a proper answer.** -/
theorem Agrees.proper {c after : Cursor} {ended : Answer × Nat}
    (hc : c.Within text) (h : Agrees text c.offset c.next ended after) :
    ended.1.Proper text c.offset after.offset := by
  rw [h.answer]
  cases hstep : c.next with
  | finished offset =>
      have hnil : c.skipBlanks.rest = [] := Cursor.eq_nil_of_readToken hstep
      have hsize := hc.skipBlanks.utf8ByteSize_eq
      rw [Cursor.next, hnil] at hstep
      obtain rfl := Cursor.Step.finished.inj hstep
      rw [hnil] at hsize
      exact hsize.symm
  | token start t behind =>
      obtain rfl := h.behind _ _ _ hstep
      obtain ⟨rfl, hlt, -⟩ := taken_of_next hstep
      exact ⟨Nat.le_add_right _ _, hlt⟩
  | failed error => exact reason_fault error.fault

/-! ## One call after the other -/

/-- The position is at a place of the text all the time. -/
theorem exists_within (text : String) (k : Nat) :
    ∃ c : Cursor, c.Within text ∧ c.offset = position text k := by
  induction k with
  | zero => exact ⟨_, .ofText text, rfl⟩
  | succ k ih =>
      obtain ⟨c, hc, hk⟩ := ih
      obtain ⟨after, hafter⟩ := agrees_call hc
      refine ⟨after, hafter.within, ?_⟩
      rw [position, ← hk, hafter.place]

/-- **Every call answers properly and never goes back.** -/
theorem proper_answer (text : String) (k : Nat) :
    (answer text k).Proper text (position text k) (position text (k + 1))
      ∧ position text k ≤ position text (k + 1) := by
  obtain ⟨c, hc, hk⟩ := exists_within text k
  obtain ⟨after, hafter⟩ := agrees_call hc
  have hnext : position text (k + 1) = after.offset := by
    rw [position, ← hk, hafter.place]
  rw [answer, hnext, ← hk]
  exact ⟨hafter.proper hc, hafter.onward⟩

/-- A later character has no earlier byte. -/
theorem position_mono : Monotone (position text) :=
  monotone_nat_of_le_succ fun k => (proper_answer text k).2

/-! ## The scan -/

/-- A call in front of which a cursor stands answers what the cursor's step
is, and the next call is in front of where that step gets. -/
theorem answer_of_within {c : Cursor} (hc : c.Within text) {k : Nat}
    (hk : position text k = c.offset) :
    answer text k = .ofStep c.next ∧ ∀ start t behind,
      c.next = .token start t behind →
        behind.Within text ∧ position text (k + 1) = behind.offset := by
  obtain ⟨after, hafter⟩ := agrees_call hc
  refine ⟨by rw [answer, hk, hafter.answer], fun start t behind hstep => ?_⟩
  obtain rfl := hafter.behind _ _ _ hstep
  exact ⟨hafter.within, by rw [position, hk, hafter.place]⟩

/-- **The calls answer what the scan finds,** token by token, and end as it
ends. -/
theorem answers_scan (c : Cursor) (hc : c.Within text) {k : Nat}
    (hk : position text k = c.offset) :
    (∀ j placed, c.scan.tokens[j]? = some placed →
      answer text (k + j) = .token placed.1 placed.2)
    ∧ answer text (k + c.scan.tokens.length) = .ofEnding c.scan.ending := by
  induction c using Cursor.scan.induct generalizing k with
  | case1 c offset hnext =>
      rw [Cursor.scan_of_finished hnext]
      refine ⟨by simp, ?_⟩
      exact (answer_of_within hc hk).1.trans (congrArg Answer.ofStep hnext)
  | case2 c error hnext =>
      rw [Cursor.scan_of_failed hnext]
      refine ⟨by simp, ?_⟩
      exact (answer_of_within hc hk).1.trans (congrArg Answer.ofStep hnext)
  | case3 c start t behind hnext ih =>
      rw [Cursor.scan_of_token hnext]
      obtain ⟨hanswer, hbehind⟩ := answer_of_within hc hk
      obtain ⟨hwithin, hplace⟩ := hbehind _ _ _ hnext
      obtain ⟨htokens, hending⟩ := ih hwithin hplace
      constructor
      · intro j placed hj
        cases j with
        | zero =>
            obtain rfl := Option.some.inj hj
            exact hanswer.trans (congrArg Answer.ofStep hnext)
        | succ j =>
            rw [← Nat.succ_add_eq_add_succ]
            exact htokens j placed hj
      · rw [List.length_cons, ← Nat.succ_add_eq_add_succ]
        exact hending

/-- There are no more tokens than characters. -/
theorem length_tokens_le (c : Cursor) :
    c.scan.tokens.length ≤ c.rest.length := by
  induction c using Cursor.scan.induct with
  | case1 c offset hnext =>
      rw [Cursor.scan_of_finished hnext]
      exact Nat.zero_le _
  | case2 c error hnext =>
      rw [Cursor.scan_of_failed hnext]
      exact Nat.zero_le _
  | case3 c start t behind hnext ih =>
      have hshorter := Cursor.next_shorter hnext
      rw [Cursor.scan_of_token hnext, List.length_cons]
      omega

/-- A character of two texts in a row is in the first one, or in what is
behind it. -/
theorem in_front_or_behind {a b front later : List Char} {d : Char}
    (h : a ++ b = front ++ d :: later) :
    (d ∈ a ∧ byteLength front + d.utf8Size ≤ byteLength a)
    ∨ ∃ front', front = a ++ front' ∧ b = front' ++ d :: later := by
  rcases List.append_eq_append_iff.mp h with ⟨front', hfront, hb⟩ | ⟨s, ha, hs⟩
  · exact .inr ⟨front', hfront, hb⟩
  · cases s with
    | nil => exact .inr ⟨[], by simp [ha], hs.symm⟩
    | cons e s =>
        obtain ⟨rfl, -⟩ := List.cons.inj hs
        refine .inl ⟨by simp [ha], ?_⟩
        rw [ha, byteLength_append, byteLength]
        omega

/-- **What is no blank is read as part of a token,** if the end of the text
is reached. -/
theorem covered (c : Cursor) (hc : c.Within text) {k offset : Nat}
    (hk : position text k = c.offset) (hend : c.scan.ending = .ok offset)
    {front later : List Char} {d : Char}
    (hrest : c.rest = front ++ d :: later)
    (hblank : Text.isBlank d = false) :
    ∃ j placed, c.scan.tokens[j]? = some placed
      ∧ placed.1 ≤ c.offset + byteLength front
      ∧ c.offset + byteLength front + d.utf8Size
        ≤ position text (k + j + 1) := by
  have hnotBlank : d ∉ c.rest.takeWhile Text.isBlank := fun hd => by
    simp [Cursor.all_blank_takeWhile c.rest d hd] at hblank
  induction c using Cursor.scan.induct generalizing k front with
  | case1 c offset' hnext =>
      have hnil : Text.trimStart c.rest = [] :=
        Cursor.eq_nil_of_readToken hnext
      have hall := Cursor.blanks_append c.rest
      rw [hnil, List.append_nil] at hall
      rw [hall, hrest] at hnotBlank
      exact absurd (List.mem_append_right _ List.mem_cons_self) hnotBlank
  | case2 c error hnext =>
      rw [Cursor.scan_of_failed hnext] at hend
      exact absurd hend (by simp)
  | case3 c start t behind hnext ih =>
      rw [Cursor.scan_of_token hnext] at hend ⊢
      obtain ⟨hwithin, hplace⟩ := (answer_of_within hc hk).2 _ _ _ hnext
      obtain ⟨hstart, -, w, hs, hstop⟩ := taken_of_next hnext
      have hs : Text.trimStart c.rest = w ++ behind.rest := hs
      have hoffset : start = c.offset
          + byteLength (c.rest.takeWhile Text.isBlank) := hstart
      have hrest := (Cursor.blanks_append c.rest).trans hrest
      -- The character is among the blanks, in the token, or behind it.
      rcases in_front_or_behind hrest with ⟨hd, -⟩ | ⟨front', rfl, hfront'⟩
      · exact absurd hd hnotBlank
      · rw [hs] at hfront'
        rw [byteLength_append]
        rcases in_front_or_behind hfront' with ⟨-, hin⟩ | ⟨front'', rfl, h''⟩
        · refine ⟨0, (start, t), rfl, ?_, ?_⟩
          · dsimp only
            omega
          · rw [Nat.add_zero, hplace, hstop]
            omega
        · obtain ⟨j, placed, hj, hfirst, hlast⟩ :=
            ih hwithin hplace hend h'' fun hd => by
              simp [Cursor.all_blank_takeWhile behind.rest d hd] at hblank
          have hcall : k + (j + 1) + 1 = k + 1 + j + 1 := by omega
          rw [byteLength_append]
          refine ⟨j + 1, placed, hj, by omega, ?_⟩
          rw [hcall]
          omega

/-! ## A whole text -/

/-- A token starts between the positions around its call. -/
theorem start_between {k : Nat} {placed : Nat × Token}
    (h : (scan text.toList).tokens[k]? = some placed) :
    position text k ≤ placed.1 ∧ placed.1 < position text (k + 1) := by
  have htoken := (answers_scan _ (.ofText text) (k := 0) rfl).1 k placed h
  have hproper := (proper_answer text k).1
  rw [Nat.zero_add] at htoken
  rwa [htoken] at hproper

/-- The tokens start one behind the other. -/
theorem starts_pairwise :
    ((scan text.toList).tokens.map Prod.fst).Pairwise (· < ·) := by
  refine List.pairwise_iff_getElem.mpr fun i j hi hj hij => ?_
  rw [List.length_map] at hi hj
  rw [List.getElem_map, List.getElem_map]
  have hfirst := start_between (List.getElem?_eq_getElem hi)
  have hsecond := start_between (List.getElem?_eq_getElem hj)
  have hmono : position text (i + 1) ≤ position text j := position_mono hij
  omega

/-- The slices of two tokens are one behind the other. -/
theorem slices_pairwise :
    (slices text).Pairwise fun a b => a.2 ≤ b.1 := by
  refine List.pairwise_iff_getElem.mpr fun i j hi hj hij => ?_
  simp only [slices, List.length_mapIdx] at hi hj
  have hstart := start_between (List.getElem?_eq_getElem hj)
  simp only [slices, List.getElem_mapIdx]
  exact Nat.le_trans (position_mono hij) hstart.1

/-- A character that is no blank is in one of the slices. -/
theorem covered_by_slice {offset : Nat}
    (hend : (scan text.toList).ending = .ok offset)
    {before behind : List Char} {c : Char}
    (htext : text.toList = before ++ c :: behind)
    (hblank : Text.isBlank c = false) :
    ∃ slice ∈ slices text, slice.1 ≤ byteLength before
      ∧ byteLength before + c.utf8Size ≤ slice.2 := by
  obtain ⟨j, placed, hj, hfirst, hlast⟩ :=
    covered _ (.ofText text) (k := 0) rfl hend htext hblank
  simp only [Cursor.ofText, Nat.zero_add] at hfirst hlast
  have hslice : (slices text)[j]? = some (placed.1, position text (j + 1)) := by
    have hplaced : (scan text.toList).tokens[j]? = some placed := hj
    rw [slices, List.getElem?_mapIdx, hplaced, Option.map_some]
  exact ⟨_, List.mem_of_getElem? hslice, hfirst, hlast⟩

/-- **A text is read to its end in proper calls.**  Before every call the
position is on the border of a character and not behind the text, and the
call answers with the end of the text, with a token that starts there or
later and is behind it, or with a fault, never by a guard.  The answers are
what the scan finds, no more tokens than characters.  The tokens start one
behind the other, their slices do not meet, and if the end is reached every
character is a blank or in one of the slices. -/
theorem calls_cover (text : String) :
    let found := scan text.toList
    (∀ k, String.Pos.Raw.IsValid text ⟨position text k⟩
      ∧ position text k ≤ text.utf8ByteSize
      ∧ (answer text k).Proper text (position text k) (position text (k + 1)))
    ∧ found.tokens.length ≤ text.length
    ∧ (∀ k placed, found.tokens[k]? = some placed →
      answer text k = .token placed.1 placed.2)
    ∧ answer text found.tokens.length = .ofEnding found.ending
    ∧ (found.tokens.map Prod.fst).Pairwise (· < ·)
    ∧ (slices text).Pairwise (fun a b => a.2 ≤ b.1)
    ∧ ∀ offset, found.ending = .ok offset → ∀ before c behind,
      text.toList = before ++ c :: behind → Text.isBlank c = true
        ∨ ∃ slice ∈ slices text, slice.1 ≤ byteLength before
          ∧ byteLength before + c.utf8Size ≤ slice.2 := by
  intro found
  obtain ⟨htokens, hending⟩ :=
    answers_scan _ (.ofText text) (k := 0) rfl
  simp only [Nat.zero_add] at htokens hending
  refine ⟨fun k => ?_, ?_, htokens, hending, starts_pairwise,
    slices_pairwise, ?_⟩
  · obtain ⟨c, hc, hk⟩ := exists_within text k
    have hvalid := hk ▸ hc.isValid
    exact ⟨hvalid, hvalid.le_utf8ByteSize, (proper_answer text k).1⟩
  · rw [← String.length_toList]
    exact length_tokens_le _
  · intro offset hend before c behind htext
    cases hblank : Text.isBlank c with
    | true => exact .inl rfl
    | false => exact .inr (covered_by_slice hend htext hblank)

/-- The name of a tag is covered, with a character of two bytes. -/
theorem calls_cover_two_tokens :
    (scan "( @é".toList).ending = .ok 5
    ∧ ∃ slice ∈ slices "( @é", slice.1 ≤ 3 ∧ 5 ≤ slice.2 := by
  have hend : (scan "( @é".toList).ending = .ok 5 := by cbv
  have hcover := (calls_cover "( @é").2.2.2.2.2.2
  refine ⟨hend, ?_⟩
  exact (hcover 5 hend ['(', ' ', '@'] 'é' [] (by decide)).resolve_left
    (by decide)

end ByteReader

end SoloScenario.TagExpr
