import Mathlib
import SoloScenario.Proofs.Text.BlankLines
import SoloScenario.Text.Margin

/-!
# What is left when the margin has been taken off

The margin stands in front of every line that is not blank, so taking it
off loses nothing but blanks (`margin_starts_line`).  What is left may have
a margin again: a line of blanks that departs from the indentation of the
others cuts the margin down, and is empty afterwards.  The second margin is
just what the lines of blanks held back (`margin_textLines_eq_append`).

* `pieces_dedent` — the text line by line, where no carriage return is in
  it;
* `dedent_eq_self_iff` — a text without blank lines is left as it is if it
  has no margin;
* `dedent_dedent` — such a text has none the second time.
-/

namespace SoloScenario.Text

/-! ## Margins line by line -/

/-- The lines that are not blank. -/
def textLines (ls : List (List Char)) : List (List Char) :=
  ls.filter fun l => !isAllBlank l

/-- Two texts put together are blank if both are. -/
theorem isAllBlank_append (s t : List Char) :
    isAllBlank (s ++ t) = (isAllBlank s && isAllBlank t) :=
  List.all_append

/-- An empty line narrows nothing. -/
theorem narrow_nil (shared : List Char) : narrow shared [] = shared := by
  cases shared <;> rfl

/-- A character that both have stays in the margin. -/
theorem narrow_cons (c : Char) (shared line : List Char) :
    narrow (c :: shared) (c :: line) = c :: narrow shared line := by
  rw [narrow, narrow, fork?, if_pos rfl]
  cases fork? line shared <;> rfl

/-- What both begin with is kept. -/
theorem narrow_append (p shared line : List Char) :
    narrow (p ++ shared) (p ++ line) = p ++ narrow shared line := by
  induction p with
  | nil => rfl
  | cons c p ih =>
      rw [List.cons_append, List.cons_append, narrow_cons, ih]
      rfl

/-- What stands in front of every line stays in the margin. -/
theorem foldl_narrow_append (p shared : List Char) (ls : List (List Char)) :
    (ls.map (p ++ ·)).foldl narrow (p ++ shared)
      = p ++ ls.foldl narrow shared := by
  induction ls generalizing shared with
  | nil => rfl
  | cons l ls ih =>
      rw [List.map_cons, List.foldl_cons, narrow_append, ih]
      rfl

/-- Blank lines leave the margin alone, if they are empty. -/
theorem foldl_narrow_textLines {ls : List (List Char)}
    (h : ∀ l ∈ ls, isAllBlank l = true → l = []) (shared : List Char) :
    (textLines ls).foldl narrow shared = ls.foldl narrow shared := by
  induction ls generalizing shared with
  | nil => rfl
  | cons l ls ih =>
      obtain ⟨hl, hls⟩ := List.forall_mem_cons.mp h
      rw [textLines, List.filter_cons, List.foldl_cons]
      by_cases hblank : isAllBlank l = true
      · rw [hl hblank, narrow_nil]
        exact ih hls shared
      · rw [if_pos (by simpa using hblank), List.foldl_cons]
        exact ih hls _

/-- Lines that are empty do not count. -/
theorem margin_textLines {ls : List (List Char)}
    (h : ∀ l ∈ ls, isAllBlank l = true → l = []) :
    margin (textLines ls) = margin ls := by
  induction ls with
  | nil => rfl
  | cons l ls ih =>
      obtain ⟨-, hls⟩ := List.forall_mem_cons.mp h
      rw [textLines, List.filter_cons, margin]
      by_cases hblank : isAllBlank l = true
      · rw [if_pos hblank, if_neg (by simpa using hblank)]
        exact ih hls
      · rw [if_neg hblank, if_pos (by simpa using hblank), margin,
          if_neg hblank]
        exact foldl_narrow_textLines hls _

/-- What all lines begin with, blanks alone, belongs to the margin. -/
theorem margin_map_append {p : List Char} (hp : isAllBlank p = true)
    {ls : List (List Char)} (hne : ls ≠ [])
    (h : ∀ l ∈ ls, isAllBlank l = false) :
    margin (ls.map (p ++ ·)) = p ++ margin ls := by
  obtain ⟨l, rest, rfl⟩ := List.exists_cons_of_ne_nil hne
  have hl : isAllBlank l = false := h l List.mem_cons_self
  have hboth : isAllBlank (p ++ l) = false := by
    rw [isAllBlank_append, hl, Bool.and_false]
  have htake : (p ++ l).takeWhile isBlank = p ++ l.takeWhile isBlank :=
    List.takeWhile_append_of_pos (List.all_eq_true.mp hp)
  rw [List.map_cons, margin, margin, hl, hboth, htake]
  exact foldl_narrow_append p _ rest

/-- What a margin keeps when it is narrowed: what is in step with the line,
that is, starts it or goes on behind it. -/
theorem prefix_narrow_iff {p shared line : List Char} :
    p <+: narrow shared line ↔ p <+: shared ∧ (line <+: p ∨ p <+: line) := by
  induction shared generalizing p line with
  | nil =>
      have hnil : narrow [] line = [] := by
        cases line <;> rfl
      rw [hnil]
      constructor
      · intro hp
        obtain rfl := List.prefix_nil.mp hp
        exact ⟨hp, .inr List.nil_prefix⟩
      · exact And.left
  | cons c shared ih =>
      rcases line with _ | ⟨d, line⟩
      · rw [narrow_nil]
        exact ⟨fun hp => ⟨hp, .inl List.nil_prefix⟩, And.left⟩
      rcases p with _ | ⟨e, p⟩
      · exact ⟨fun _ => ⟨List.nil_prefix, .inr List.nil_prefix⟩,
          fun _ => List.nil_prefix⟩
      by_cases hd : d = c
      · subst hd
        rw [narrow_cons, List.cons_prefix_cons, List.cons_prefix_cons,
          List.cons_prefix_cons, List.cons_prefix_cons, ih]
        constructor
        · rintro ⟨rfl, hp, hline | hline⟩
          · exact ⟨⟨rfl, hp⟩, .inl ⟨rfl, hline⟩⟩
          · exact ⟨⟨rfl, hp⟩, .inr ⟨rfl, hline⟩⟩
        · rintro ⟨⟨rfl, hp⟩, ⟨-, hline⟩ | ⟨-, hline⟩⟩
          · exact ⟨rfl, hp, .inl hline⟩
          · exact ⟨rfl, hp, .inr hline⟩
      · have hfork : narrow (c :: shared) (d :: line) = [] := by
          simp [narrow, fork?, hd]
        rw [hfork, List.cons_prefix_cons, List.cons_prefix_cons,
          List.cons_prefix_cons]
        constructor
        · intro hp
          exact absurd hp (by simp)
        · rintro ⟨⟨rfl, -⟩, ⟨rfl, -⟩ | ⟨rfl, -⟩⟩ <;> exact absurd rfl hd

/-- **What is in the margin is in every line,** as far as the line goes. -/
theorem prefix_foldl_narrow_iff {p shared : List Char}
    {ls : List (List Char)} : p <+: ls.foldl narrow shared
      ↔ p <+: shared ∧ ∀ l ∈ ls, l <+: p ∨ p <+: l := by
  induction ls generalizing shared with
  | nil => simp
  | cons l ls ih =>
      rw [List.foldl_cons, ih, prefix_narrow_iff, and_assoc,
        List.forall_mem_cons]

/-- A margin from its first line that is not blank on. -/
theorem prefix_margin_iff {p k : List Char} (hk : isAllBlank k = false)
    {ls : List (List Char)} : p <+: margin (k :: ls)
      ↔ p <+: k.takeWhile isBlank ∧ ∀ l ∈ ls, l <+: p ∨ p <+: l := by
  rw [margin, hk, if_neg Bool.false_ne_true]
  exact prefix_foldl_narrow_iff

/-- A line with text is not the beginning of blanks. -/
theorem not_prefix_of_blank {p l : List Char} (hp : isAllBlank p = true)
    (hl : isAllBlank l = false) : ¬ l <+: p := by
  rintro ⟨rest, rfl⟩
  rw [isAllBlank_append, hl] at hp
  exact Bool.false_ne_true hp

/-- **The margin stands in front of every line that is not blank.** -/
theorem margin_starts_line {ls : List (List Char)} :
    ∀ l ∈ ls, isAllBlank l = false → margin ls <+: l := by
  induction ls with
  | nil => simp
  | cons k ls ih =>
      intro l hl hblank
      by_cases hk : isAllBlank k = true
      · rw [margin, if_pos hk]
        rcases List.mem_cons.mp hl with rfl | hl
        · exact absurd (hblank.symm.trans hk) (by simp)
        · exact ih l hl hblank
      · obtain ⟨hfirst, hrest⟩ := (prefix_margin_iff (by simpa using hk)).mp
          (List.prefix_refl (margin (k :: ls)))
        rcases List.mem_cons.mp hl with rfl | hl
        · exact hfirst.trans (List.takeWhile_prefix _)
        · exact (hrest l hl).resolve_left
            (not_prefix_of_blank (isAllBlank_margin _) hblank)

/-- A line that is not blank loses its margin and nothing else. -/
theorem margin_append_outdent {ls : List (List Char)} {l : List Char}
    (hl : l ∈ ls) (hblank : isAllBlank l = false) :
    margin ls ++ outdent (margin ls) l = l := by
  have hstarts := margin_starts_line l hl hblank
  rw [outdent, hblank, if_neg (by simp),
    if_pos (List.isPrefixOf_iff_prefix.mpr hstarts)]
  exact List.prefix_iff_eq_append.mp hstarts

/-- A line is blank without the margin just if it was with it. -/
theorem isAllBlank_outdent {ls : List (List Char)} {l : List Char}
    (hl : l ∈ ls) : isAllBlank (outdent (margin ls) l) = isAllBlank l := by
  by_cases hblank : isAllBlank l = true
  · rw [outdent, if_pos hblank, hblank]
    rfl
  · have hsplit := margin_append_outdent hl (by simpa using hblank)
    conv_rhs => rw [← hsplit, isAllBlank_append, isAllBlank_margin,
      Bool.true_and]

/-- Blank lines have no margin. -/
theorem margin_of_blank {ls : List (List Char)}
    (h : ∀ l ∈ ls, isAllBlank l = true) : margin ls = [] := by
  induction ls with
  | nil => rfl
  | cons l ls ih =>
      obtain ⟨hl, hls⟩ := List.forall_mem_cons.mp h
      rw [margin, if_pos hl]
      exact ih hls

/-- **The margin without the blank lines is longer by what is left** of it
when the margin has been taken off all lines. -/
theorem margin_textLines_eq_append (ls : List (List Char)) :
    margin (textLines ls)
      = margin ls ++ margin (ls.map (outdent (margin ls))) := by
  have hempty : ∀ l ∈ ls.map (outdent (margin ls)),
      isAllBlank l = true → l = [] := by
    intro l hl hblank
    obtain ⟨k, hk, rfl⟩ := List.mem_map.mp hl
    rw [isAllBlank_outdent hk] at hblank
    rw [outdent, if_pos hblank]
  have htext : textLines (ls.map (outdent (margin ls)))
      = (textLines ls).map (outdent (margin ls)) := by
    rw [textLines, List.filter_map]
    refine congrArg _ (List.filter_congr fun l hl => ?_)
    exact congrArg (!·) (isAllBlank_outdent hl)
  have hrestored : ((textLines ls).map (outdent (margin ls))).map
      (margin ls ++ ·) = textLines ls := by
    rw [List.map_map]
    refine (List.map_congr_left fun l hl => ?_).trans (List.map_id _)
    obtain ⟨hmem, hblank⟩ := List.mem_filter.mp hl
    exact margin_append_outdent hmem (by simpa using hblank)
  have hsplit : textLines ls ≠ [] → margin (textLines ls)
      = margin ls ++ margin ((textLines ls).map (outdent (margin ls))) := by
    intro hne
    conv_lhs => rw [← hrestored]
    refine margin_map_append (isAllBlank_margin ls)
      (by simpa using hne) fun l hl => ?_
    rw [← htext] at hl
    simpa using (List.mem_filter.mp hl).2
  rw [← margin_textLines hempty, htext]
  by_cases hne : textLines ls = []
  · have hblank : ∀ l ∈ ls, isAllBlank l = true := by
      simpa [textLines] using hne
    rw [hne, margin_of_blank hblank]
    rfl
  · exact hsplit hne

/-- **No line of blanks cuts the margin down** if each of them, behind the
first line of text, is in step with the indentation that the lines of text
share, and only then. -/
theorem margin_eq_margin_textLines_iff (ls : List (List Char)) :
    margin ls = margin (textLines ls)
      ↔ ∀ l ∈ ls.dropWhile isAllBlank, isAllBlank l = true →
        l <+: margin (textLines ls) ∨ margin (textLines ls) <+: l := by
  induction ls with
  | nil => simp [textLines]
  | cons k ls ih =>
      by_cases hk : isAllBlank k = true
      · rw [textLines, List.filter_cons, List.dropWhile_cons, margin,
          if_pos hk, if_pos hk, if_neg (by simpa using hk)]
        exact ih
      · rw [Bool.not_eq_true] at hk
        have htext : textLines (k :: ls) = k :: textLines ls := by
          rw [textLines, List.filter_cons, hk]
          rfl
        have hdrop : (k :: ls).dropWhile isAllBlank = k :: ls := by
          rw [List.dropWhile_cons, hk]
          rfl
        -- What the lines of text share is in step with all of them.
        obtain ⟨hfirst, hstep⟩ := (prefix_margin_iff hk).mp
          (List.prefix_refl (margin (k :: textLines ls)))
        rw [hdrop, htext]
        constructor
        · intro hsame l hl hblank
          have hne : l ≠ k := by
            rintro rfl
            exact Bool.false_ne_true (hk.symm.trans hblank)
          have hall := (prefix_margin_iff hk).mp
            (List.prefix_refl (margin (k :: ls)))
          rw [hsame] at hall
          exact hall.2 l (List.mem_of_ne_of_mem hne hl)
        · intro hall
          have hlonger : margin (k :: textLines ls) <+: margin (k :: ls) := by
            refine (prefix_margin_iff hk).mpr ⟨hfirst, fun l hl => ?_⟩
            by_cases hblank : isAllBlank l = true
            · exact hall l (List.mem_cons_of_mem _ hl) hblank
            · exact hstep l (List.mem_filter.mpr ⟨hl, by simpa using hblank⟩)
          have hshorter : margin (k :: ls) <+: margin (k :: textLines ls) := by
            rw [← htext, margin_textLines_eq_append]
            exact List.prefix_append _ _
          exact hshorter.eq_of_length_le hlonger.length_le

/-! ## Texts without carriage returns -/

/-- A text that is not empty has a line. -/
theorem lines_ne_nil {s : List Char} (h : s ≠ []) : lines s ≠ [] := by
  unfold lines
  split
  · exact absurd rfl h
  · simp
  · simp
  · split <;> simp

/-- The pieces of a text are its lines, and an empty one where the text
ends in a line feed or is empty. -/
theorem pieces_eq_lines {s : List Char} (h : '\r' ∉ s) : pieces '\n' s
    = lines s ++ if endsInBreak s || s.isEmpty then [[]] else [] := by
  induction s with
  | nil => rfl
  | cons c s ih =>
      obtain ⟨hc, hs⟩ := List.ne_and_not_mem_of_not_mem_cons h
      cases s with
      | nil =>
          by_cases hn : c = '\n'
          · subst hn
            rfl
          · simp [pieces, lines, endsInBreak, hn]
      | cons d s =>
          have hends : endsInBreak (c :: d :: s) = endsInBreak (d :: s) := by
            simp [endsInBreak]
          have hrest := ih hs
          rw [List.isEmpty_cons, Bool.or_false] at hrest
          rw [hends, List.isEmpty_cons, Bool.or_false]
          by_cases hn : c = '\n'
          · subst hn
            rw [pieces_separator, hrest, lines]
            rfl
          · obtain ⟨l, ls, hl⟩ :=
              List.exists_cons_of_ne_nil (lines_ne_nil (List.cons_ne_nil d s))
            rw [hl, List.cons_append] at hrest
            rw [pieces, hrest, lines.eq_4 c _ hn fun _ hr => absurd hr hc.symm,
              hl]
            simp [hn]

/-- An empty line at the end does not change the margin. -/
theorem margin_append_nil (ls : List (List Char)) :
    margin (ls ++ [[]]) = margin ls := by
  induction ls with
  | nil => rfl
  | cons l ls ih =>
      rw [List.cons_append, margin, margin, ih, List.foldl_append]
      simp [narrow_nil]

/-- So the margin is the same whether the last break ends a line or starts one.
-/
theorem margin_pieces {s : List Char} (h : '\r' ∉ s) :
    margin (pieces '\n' s) = margin (lines s) := by
  rw [pieces_eq_lines h]
  split
  · exact margin_append_nil _
  · rw [List.append_nil]

/-- A piece more at the end, an empty one, is a separator more. -/
theorem joinPieces_append_nil {separator : Char} {ps : List (List Char)}
    (hne : ps ≠ []) : joinPieces separator (ps ++ [[]])
      = joinPieces separator ps ++ [separator] := by
  induction ps with
  | nil => exact absurd rfl hne
  | cons p ps ih =>
      cases ps with
      | nil => simp [joinPieces, List.intercalate]
      | cons q ps =>
          have hrest := ih (List.cons_ne_nil q ps)
          rw [List.cons_append] at hrest
          rw [List.cons_append, List.cons_append, joinPieces_cons_cons,
            joinPieces_cons_cons, hrest, List.append_assoc]
          rfl

/-- Dedenting takes the margin off each piece. -/
theorem dedent_eq_joinPieces {s : List Char} (h : '\r' ∉ s) : dedent s
    = joinPieces '\n'
      ((pieces '\n' s).map (outdent (margin (pieces '\n' s)))) := by
  have hbody : dedent s = if endsInBreak s
      then joinPieces '\n' ((lines s).map (outdent (margin (lines s))))
        ++ ['\n']
      else joinPieces '\n' ((lines s).map (outdent (margin (lines s)))) := rfl
  rw [hbody, margin_pieces h, pieces_eq_lines h]
  by_cases hs : s = []
  · subst hs
    rfl
  · rw [List.isEmpty_eq_false_iff.mpr hs, Bool.or_false]
    split
    · rw [List.map_append]
      exact (joinPieces_append_nil (by simpa using lines_ne_nil hs)).symm
    · rw [List.append_nil]

/-- **The margin is taken off piece by piece.** -/
theorem pieces_dedent {s : List Char} (h : '\r' ∉ s) :
    pieces '\n' (dedent s)
      = (pieces '\n' s).map (outdent (margin (pieces '\n' s))) := by
  rw [dedent_eq_joinPieces h]
  refine pieces_joinPieces (by simpa using pieces_ne_nil '\n' s) ?_
  intro p hp
  obtain ⟨l, hl, rfl⟩ := List.mem_map.mp hp
  exact (outdent_line (isAllBlank_margin _)
    (not_mem_of_mem_pieces '\n' s l hl)).1

/-- What is left of a line is its end. -/
theorem outdent_suffix (shared line : List Char) :
    outdent shared line <:+ line := by
  rw [outdent]
  split
  · exact List.nil_suffix
  · split
    · exact List.drop_suffix _ _
    · exact List.nil_suffix

/-- A piece is a part of what is joined. -/
theorem infix_joinPieces {separator : Char} {ps : List (List Char)}
    {p : List Char} (h : p ∈ ps) : p <:+: joinPieces separator ps := by
  induction ps with
  | nil => simp at h
  | cons q ps ih =>
      cases ps with
      | nil =>
          obtain rfl := List.mem_singleton.mp h
          simp [joinPieces, List.intercalate]
      | cons q' ps =>
          rw [joinPieces_cons_cons]
          rcases List.mem_cons.mp h with rfl | h
          · exact (List.prefix_append p _).isInfix
          · exact (ih h).trans
              ((List.suffix_cons _ _).trans (List.suffix_append _ _)).isInfix

/-- A text without separators stands in one of the pieces. -/
theorem infix_iff_infix_piece {separator : Char} {s w : List Char}
    (hw : separator ∉ w) :
    w <:+: s ↔ ∃ p ∈ pieces separator s, w <:+: p := by
  constructor
  · rintro ⟨x, y, rfl⟩
    obtain ⟨before, last, -, happend⟩ := pieces_append separator x
    obtain ⟨p, ps, hy⟩ :=
      List.exists_cons_of_ne_nil (pieces_ne_nil separator y)
    have hboth := happend _ _ _ (pieces_append_of_not_mem hw hy)
    rw [List.append_assoc, hboth]
    refine ⟨last ++ (w ++ p), by simp, last, p, ?_⟩
    rw [List.append_assoc]
  · rintro ⟨p, hp, hfound⟩
    have hpiece : p <:+: joinPieces separator (pieces separator s) :=
      infix_joinPieces hp
    rw [joinPieces_pieces] at hpiece
    exact hfound.trans hpiece

/-- What is found in a text without its margin is found in the text. -/
theorem infix_of_infix_dedent {s w : List Char} (h : '\r' ∉ s)
    (hw : '\n' ∉ w) (hfound : w <:+: dedent s) : w <:+: s := by
  obtain ⟨p, hp, hfound⟩ := (infix_iff_infix_piece hw).mp hfound
  rw [pieces_dedent h] at hp
  obtain ⟨l, hl, rfl⟩ := List.mem_map.mp hp
  exact (infix_iff_infix_piece hw).mpr
    ⟨l, hl, hfound.trans (outdent_suffix _ l).isInfix⟩

/-- Dedenting adds no carriage return. -/
theorem no_return_dedent {s : List Char} (h : '\r' ∉ s) :
    '\r' ∉ dedent s := fun hr =>
  h ((List.singleton_infix_iff _ s).mp (infix_of_infix_dedent h (by decide)
    ((List.singleton_infix_iff _ _).mpr hr)))

/-- **What is left of the margin.** -/
theorem margin_dedent {s : List Char} (h : '\r' ∉ s) :
    margin (textLines (pieces '\n' s))
      = margin (pieces '\n' s) ++ margin (pieces '\n' (dedent s)) := by
  rw [pieces_dedent h]
  exact margin_textLines_eq_append _

/-- **A text without blank lines is left as it is if it has no margin,** and
only then. -/
theorem dedent_eq_self_iff {s : List Char} (h : '\r' ∉ s)
    (hblank : NoBlankLine s) :
    dedent s = s ↔ margin (pieces '\n' s) = [] := by
  constructor
  · intro hsame
    have hleft := margin_dedent h
    rw [hsame, margin_textLines hblank] at hleft
    exact List.self_eq_append_right.mp hleft
  · intro hnone
    have hkept : ∀ l ∈ pieces '\n' s,
        outdent (margin (pieces '\n' s)) l = l := by
      intro l hl
      by_cases hl' : isAllBlank l = true
      · rw [outdent, if_pos hl', hblank l hl hl']
      · have hsplit := margin_append_outdent hl (by simpa using hl')
        rw [hnone, List.nil_append] at hsplit
        rw [hnone]
        exact hsplit
    rw [dedent_eq_joinPieces h, List.map_congr_left hkept, List.map_id',
      joinPieces_pieces]

/-- The second time there is no margin left. -/
theorem dedent_dedent {s : List Char} (h : '\r' ∉ s)
    (hblank : NoBlankLine s) : dedent (dedent s) = dedent s := by
  rw [dedent_eq_self_iff (no_return_dedent h) (noBlankLine_dedent s)]
  have hleft := margin_dedent h
  rw [margin_textLines hblank] at hleft
  exact List.self_eq_append_right.mp hleft

end SoloScenario.Text
