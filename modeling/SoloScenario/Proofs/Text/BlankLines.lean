import SoloScenario.Grammar.DocString
import SoloScenario.Text.Pieces

/-!
# Lines of blanks

A text has **no blank line** when every line of it that holds blanks alone
is empty (`NoBlankLine`).  Taking the margin off a text leaves it so
(`noBlankLine_dedent`), and so does cutting a break off its ends.
-/

namespace SoloScenario.Text

/-! ## Cutting a text -/

/-- No line of the text holds blanks and nothing else. -/
def NoBlankLine (s : List Char) : Prop :=
  ∀ l ∈ pieces '\n' s, isAllBlank l = true → l = []

/-- A text behind another one goes on with the last piece of that. -/
theorem pieces_append (separator : Char) (s : List Char) :
    ∃ before last, pieces separator s = before ++ [last]
      ∧ ∀ t p ps, pieces separator t = p :: ps →
        pieces separator (s ++ t) = before ++ (last ++ p) :: ps := by
  induction s with
  | nil => exact ⟨[], [], rfl, fun t p ps h => h⟩
  | cons c s ih =>
      obtain ⟨before, last, hs, happend⟩ := ih
      by_cases hc : c = separator
      · refine ⟨[] :: before, last, ?_, fun t p ps ht => ?_⟩
        · rw [pieces, hs]
          cases before <;> simp [hc]
        · rw [List.cons_append, pieces, happend t p ps ht]
          cases before <;> simp [hc]
      · cases before with
        | nil =>
            refine ⟨[], c :: last, ?_, fun t p ps ht => ?_⟩
            · rw [pieces, hs]
              simp [hc]
            · rw [List.cons_append, pieces, happend t p ps ht]
              simp [hc]
        | cons first before =>
            refine ⟨(c :: first) :: before, last, ?_, fun t p ps ht => ?_⟩
            · rw [pieces, hs]
              simp [hc]
            · rw [List.cons_append, pieces, happend t p ps ht]
              simp [hc]

/-- A text without separators is one piece. -/
theorem pieces_of_not_mem {separator : Char} {s : List Char}
    (h : separator ∉ s) : pieces separator s = [s] := by
  induction s with
  | nil => rfl
  | cons c s ih =>
      obtain ⟨hc, hs⟩ := List.ne_and_not_mem_of_not_mem_cons h
      rw [pieces, ih hs]
      simp [hc.symm]

/-- What has no separator belongs to the first piece behind it. -/
theorem pieces_append_of_not_mem {separator : Char} {s t p : List Char}
    {ps : List (List Char)} (hs : separator ∉ s)
    (ht : pieces separator t = p :: ps) :
    pieces separator (s ++ t) = (s ++ p) :: ps := by
  obtain ⟨before, last, hlast, happend⟩ := pieces_append separator s
  rw [pieces_of_not_mem hs] at hlast
  obtain ⟨rfl, rfl⟩ : before = [] ∧ last = s := by
    cases before <;> simp_all
  exact happend t p ps ht

/-- A separator in front makes one more piece, an empty one. -/
theorem pieces_separator (separator : Char) (s : List Char) :
    pieces separator (separator :: s) = [] :: pieces separator s := by
  obtain ⟨p, ps, hp⟩ :=
    List.exists_cons_of_ne_nil (pieces_ne_nil separator s)
  rw [pieces, hp]
  simp

/-- No separator is left in a piece. -/
theorem not_mem_of_mem_pieces (separator : Char) (s : List Char) :
    ∀ p ∈ pieces separator s, separator ∉ p := by
  induction s with
  | nil => simp [pieces]
  | cons c s ih =>
      obtain ⟨p, ps, hp⟩ :=
        List.exists_cons_of_ne_nil (pieces_ne_nil separator s)
      rw [hp, List.forall_mem_cons] at ih
      rw [pieces, hp]
      dsimp only
      split
      · simpa using ih
      · next hc =>
          have hfirst : separator ∉ c :: p := by
            simpa [Ne.symm hc] using ih.1
          exact List.forall_mem_cons.mpr ⟨hfirst, ih.2⟩

/-- Two pieces are joined by a separator. -/
theorem joinPieces_cons_cons (separator : Char) (p q : List Char)
    (ps : List (List Char)) : joinPieces separator (p :: q :: ps)
      = p ++ separator :: joinPieces separator (q :: ps) := by
  simp [joinPieces, List.intercalate]

/-- **Joined pieces are cut where they were joined.** -/
theorem pieces_joinPieces {separator : Char} {ps : List (List Char)}
    (hne : ps ≠ []) (h : ∀ p ∈ ps, separator ∉ p) :
    pieces separator (joinPieces separator ps) = ps := by
  induction ps with
  | nil => exact absurd rfl hne
  | cons p ps ih =>
      have hfirst := h p List.mem_cons_self
      cases ps with
      | nil =>
          have hp := pieces_of_not_mem hfirst
          simpa [joinPieces, List.intercalate] using hp
      | cons q qs =>
          have hrest := ih (List.cons_ne_nil q qs)
            fun p hp => h p (List.mem_cons_of_mem _ hp)
          have hnext := pieces_separator separator
            (joinPieces separator (q :: qs))
          rw [hrest] at hnext
          rw [joinPieces_cons_cons, pieces_append_of_not_mem hfirst hnext,
            List.append_nil]

/-- A text has no blank line if each line that is blank is empty. -/
theorem noBlankLine_joinPieces {ps : List (List Char)}
    (hfeed : ∀ p ∈ ps, '\n' ∉ p)
    (hblank : ∀ p ∈ ps, isAllBlank p = true → p = []) :
    NoBlankLine (joinPieces '\n' ps) := by
  by_cases hne : ps = []
  · subst hne
    simp [NoBlankLine, joinPieces, List.intercalate, pieces]
  · rw [NoBlankLine, pieces_joinPieces hne hfeed]
    exact hblank

/-- A break at the end adds an empty line. -/
theorem NoBlankLine.newline {s : List Char} (h : NoBlankLine s) :
    NoBlankLine (s ++ ['\n']) := by
  obtain ⟨before, last, hs, happend⟩ := pieces_append '\n' s
  rw [NoBlankLine, hs] at h
  rw [NoBlankLine, happend ['\n'] [] [[]] rfl]
  intro l hl hblank
  have hmem : l ∈ before ++ [last] ∨ l = [] := by
    simpa [or_assoc] using hl
  rcases hmem with hmem | rfl
  · exact h l hmem hblank
  · rfl

/-! ## Margins -/

/-- What two texts share is the beginning of the second one. -/
theorem fork?_starts {s t p : List Char} (h : fork? s t = some p) :
    p <+: t := by
  induction s generalizing t p with
  | nil => simp [fork?] at h
  | cons c s ih =>
      cases t with
      | nil => simp [fork?] at h
      | cons d t =>
          rw [fork?] at h
          split at h
          · next hcd =>
              obtain ⟨q, hq, rfl⟩ := Option.map_eq_some_iff.mp h
              subst hcd
              exact (List.prefix_cons_inj c).mpr (ih hq)
          · obtain rfl := Option.some.inj h
            exact List.nil_prefix

/-- A margin gets narrower from its end. -/
theorem narrow_starts (shared line : List Char) :
    narrow shared line <+: shared := by
  rw [narrow]
  cases hf : fork? line shared with
  | none => exact List.prefix_rfl
  | some p => exact fork?_starts hf

/-- So it does with every line. -/
theorem foldl_narrow_starts (ls : List (List Char)) (shared : List Char) :
    ls.foldl narrow shared <+: shared := by
  induction ls generalizing shared with
  | nil => exact List.prefix_rfl
  | cons l ls ih => exact (ih _).trans (narrow_starts shared l)

/-- A margin is made of blanks. -/
theorem isAllBlank_margin (ls : List (List Char)) :
    isAllBlank (margin ls) = true := by
  induction ls with
  | nil => rfl
  | cons l ls ih =>
      rw [margin]
      split
      · exact ih
      · have hsub := foldl_narrow_starts ls (l.takeWhile isBlank)
        exact List.all_eq_true.mpr fun c hc =>
          List.all_eq_true.mp List.all_takeWhile c (hsub.subset hc)

/-- A line without its margin is empty or not blank, and still a line. -/
theorem outdent_line {shared line : List Char}
    (hshared : isAllBlank shared = true) (hfeed : '\n' ∉ line) :
    '\n' ∉ outdent shared line
      ∧ (isAllBlank (outdent shared line) = true →
        outdent shared line = []) := by
  rw [outdent]
  split
  · simp
  · next hline =>
      split
      · next hprefix =>
          obtain ⟨rest, rfl⟩ := List.isPrefixOf_iff_prefix.mp hprefix
          rw [List.drop_left]
          refine ⟨fun hn => hfeed (List.mem_append_right _ hn),
            fun hrest => ?_⟩
          refine absurd ?_ hline
          rw [isAllBlank, List.all_append, Bool.and_eq_true]
          exact ⟨hshared, hrest⟩
      · simp

/-- A line has no line feed. -/
theorem no_feed_lines (s : List Char) : ∀ l ∈ lines s, '\n' ∉ l := by
  fun_induction lines s with
  | case1 => simp
  | case2 s ih => simpa using ih
  | case3 s ih => simpa using ih
  | case4 c s hc hr hnil ih =>
      have hne : '\n' ≠ c := fun h => hc h.symm
      simp [hne]
  | case5 c s hc hr l ls hcons ih =>
      have hne : '\n' ≠ c := fun h => hc h.symm
      rw [hcons] at ih
      obtain ⟨hl, hls⟩ := List.forall_mem_cons.mp ih
      exact List.forall_mem_cons.mpr
        ⟨List.not_mem_cons_of_ne_of_not_mem hne hl, hls⟩

/-- Taking the margin off empties all lines of blanks. -/
theorem noBlankLine_dedent (s : List Char) : NoBlankLine (dedent s) := by
  have hlines : ∀ p ∈ (lines s).map (outdent (margin (lines s))),
      '\n' ∉ p ∧ (isAllBlank p = true → p = []) := by
    intro p hp
    obtain ⟨l, hl, rfl⟩ := List.mem_map.mp hp
    exact outdent_line (isAllBlank_margin _) (no_feed_lines s l hl)
  have hbody := noBlankLine_joinPieces (fun p hp => (hlines p hp).1)
    fun p hp => (hlines p hp).2
  rw [dedent]
  split
  · exact hbody.newline
  · exact hbody

end SoloScenario.Text

namespace SoloScenario.Grammar

open Text

/-! ## Breaks at the ends -/

/-- Without the first break a text has no blank line if it had none. -/
theorem noBlankLine_dropFirstBreak {s : List Char} (h : NoBlankLine s) :
    NoBlankLine (dropFirstBreak s) := by
  rw [dropFirstBreak]
  unfold atBreak?
  split
  · next t =>
      rw [NoBlankLine, pieces_separator] at h
      exact fun l hl => h l (List.mem_cons_of_mem _ hl)
  · next t =>
      rw [NoBlankLine, pieces, pieces_separator] at h
      refine fun l hl => h l ?_
      have hmem : l ∈ pieces '\n' t := hl
      simp [hmem]
  · exact h

/-- What stands in front of the last break. -/
theorem dropLastBreak_cases (s : List Char) :
    s = dropLastBreak s ∨ s = dropLastBreak s ++ ['\n']
      ∨ s = dropLastBreak s ++ ['\r', '\n'] := by
  fun_induction dropLastBreak s with
  | case1 => simp
  | case2 => simp
  | case3 => simp
  | case4 c s h1 h2 ih => simpa using ih

/-- Nor has it without the last break. -/
theorem noBlankLine_dropLastBreak {s : List Char} (h : NoBlankLine s) :
    NoBlankLine (dropLastBreak s) := by
  obtain ⟨before, last, hpieces, happend⟩ :=
    pieces_append '\n' (dropLastBreak s)
  rcases dropLastBreak_cases s with hs | hs | hs
  · rw [← hs]
    exact h
  · rw [hs, NoBlankLine, happend _ [] [[]] rfl, List.append_nil,
      List.append_cons, ← hpieces] at h
    exact fun l hl => h l (List.mem_append_left _ hl)
  · rw [hs, NoBlankLine, happend _ ['\r'] [[]] rfl] at h
    intro l hl hblank
    rw [hpieces] at hl
    rcases List.mem_append.mp hl with hl | hl
    · exact h l (List.mem_append_left _ hl) hblank
    · obtain rfl := List.mem_singleton.mp hl
      -- Blanks alone would still be blanks with the carriage return.
      have hreturn : isAllBlank (l ++ ['\r']) = true := by
        rw [isAllBlank, List.all_append, Bool.and_eq_true]
        exact ⟨hblank, rfl⟩
      have hnil := h (l ++ ['\r']) (by simp) hreturn
      simp at hnil

end SoloScenario.Grammar
