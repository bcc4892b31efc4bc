import SoloScenario.Proofs.Grammar.Steps
import SoloScenario.Proofs.Text.Respelling

/-!
# Gaps, cells and doc strings in another spelling

What stands between the parts of a feature file, and where the parts end,
does not depend on how line breaks are spelled (`Respelled`).  A carriage
return is never looked at by itself: it is passed together with its line
feed, or it is a blank like any other.

* `skips_gap`, `passes_lineEnd` and their siblings — gaps, breaks and
  comments;
* `spanCell_respelled`, `spanBody_respelled` — where a cell and a doc
  string end;
* `docStringContent_respelled`, `spelledKeyword_respelled` — what is made
  of the text between two fences, and of the text that a step starts at.
-/

namespace SoloScenario

namespace Grammar

open Text

/-! ## Gaps -/

/-- Spaces are passed however breaks are spelled. -/
theorem skips_spaces : Skips skipSpaces := fun h =>
  (dropWhile_respelled (by decide) (by decide) h).2

/-- A comment ends where its line does. -/
theorem passes_comment : Passes atComment? := by
  intro s s' h
  have hcut := skips_spaces h
  unfold atComment?
  generalize skipSpaces s = t at hcut
  generalize skipSpaces s' = t' at hcut
  have hbehind := hcut.behind
  cases hbehind with
  | nil | feed | both => exact .none
  | @char c hreturn hfeed r r' hr =>
      by_cases hc : c = '#'
      · subst hc
        exact .some (hcut.trans
          (.char hreturn hfeed (spanLine_respelled hr).2))
      · split
        · next heq => exact absurd (List.cons.inj heq).1 hc
        · split
          · next heq => exact absurd (List.cons.inj heq).1 hc
          · exact .none

/-- Something else is passed behind what may be passed first. -/
theorem passes_getD {f g : List Char → Option (List Char)} (hf : Passes f)
    (hg : Passes g) : Passes fun s => g ((f s).getD s) := by
  intro s s' h
  rcases cases_of_rel (hf h) with ⟨hs, hs'⟩ | ⟨r, r', hs, hs', hcut⟩
  · simp only [hs, hs', Option.getD_none]
    exact hg h
  · simp only [hs, hs', Option.getD_some]
    exact hcut.through (hg hcut.behind)

/-- So is a break with a comment in front. -/
theorem passes_newline : Passes atNewline? :=
  passes_getD passes_comment passes_break

/-- So is a bare break or a space. -/
theorem passes_blank : Passes atBlank? := by
  intro s s' h
  cases h with
  | nil => exact .none
  | @char c hreturn hfeed s s' h =>
      by_cases hc : isSpace c = true
      · simp only [atBlank?, hc, if_true]
        exact .some (.char hreturn hfeed (.here h))
      · simp only [atBlank?, hc]
        exact passes_break (.char hreturn hfeed h)
  | feed h => exact .some (.feed (.here h))
  | both h => exact .some (.both (.here h))

/-- So is a break or a space. -/
theorem passes_gap : Passes atGap? := by
  intro s s' h
  unfold atGap?
  rcases cases_of_rel (passes_newline h) with
    ⟨hs, hs'⟩ | ⟨r, r', hs, hs', hcut⟩
  · rw [hs, hs']
    cases h with
    | nil => exact .none
    | @char c hreturn hfeed s s' h =>
        by_cases hc : isSpace c = true
        · simp only [hc, if_true]
          exact .some (.char hreturn hfeed (.here h))
        · simp only [hc]
          exact .none
    | feed | both => exact .none
  · rw [hs, hs']
    exact .some hcut

/-- What is passed can be passed again and again. -/
theorem skips_exhaust {f : List Char → Option (List Char)}
    {shorter : ∀ {s r : List Char}, f s = some r → r.length < s.length}
    (hf : Passes f) : Skips (exhaust f shorter) := by
  intro s s' h
  fun_induction exhaust f shorter s generalizing s' with
  | case1 s hnone =>
      rcases cases_of_rel (hf h) with ⟨-, hs'⟩ | ⟨_, _, hs, -, -⟩
      · rw [exhaust_of_none hs']
        exact .here h
      · exact absurd (hnone.symm.trans hs) (by simp)
  | case2 s r hr ih =>
      rcases cases_of_rel (hf h) with ⟨hs, -⟩ | ⟨_, r', hs, hs', hcut⟩
      · exact absurd (hr.symm.trans hs) (by simp)
      · obtain rfl := Option.some.inj (hr.symm.trans hs)
        rw [exhaust_of_some hs']
        exact hcut.trans (ih hcut.behind)

/-- So are breaks. -/
theorem skips_newlines : Skips skipNewlines := skips_exhaust passes_newline

/-- So are blank lines. -/
theorem skips_blankLines : Skips skipBlankLines := skips_exhaust passes_blank

/-- So is a gap. -/
theorem skips_gap : Skips skipGap := skips_exhaust passes_gap

/-- So is the end of a line. -/
theorem passes_lineEnd : Passes atLineEnd? := by
  intro s s' h
  rw [atLineEnd?, atLineEnd?, h.isEmpty_eq]
  by_cases hs : s.isEmpty = true
  · rw [if_pos hs, if_pos hs]
    obtain rfl := List.isEmpty_iff.mp hs
    obtain rfl := h.eq_nil_iff.mp rfl
    exact .some (.here .nil)
  · rw [if_neg hs, if_neg hs]
    exact rel_map (passes_gap h) fun r r' hcut =>
      hcut.trans (skips_gap hcut.behind)

/-- So is a comment with the end of its line. -/
theorem passes_commentLine : Passes atCommentLine? := by
  intro s s' h
  unfold atCommentLine?
  rcases cases_of_rel (passes_comment h) with
    ⟨hr, hr'⟩ | ⟨r, r', hr, hr', hcut⟩
  · rw [hr, hr']
    exact .none
  · rw [hr, hr', Option.bind_some, Option.bind_some]
    exact hcut.through (passes_lineEnd hcut.behind)

/-- So are comments. -/
theorem skips_comments : Skips skipComments :=
  skips_exhaust passes_commentLine

/-! ## Cells and doc strings -/

/-- A cell ends at the same place. -/
theorem spanCell_respelled {s s' : List Char} (h : Respelled s s') :
    (spanCell s').1 = (spanCell s).1
      ∧ Cut s s' (spanCell s).2 (spanCell s').2 := by
  induction h with
  | nil => exact ⟨rfl, .here .nil⟩
  | @char c hreturn hfeed s s' h ih =>
      simp only [spanCell, atBreak?_char hreturn hfeed, Option.isSome_none,
        Bool.or_false]
      by_cases hc : (c == '|') = true
      · rw [if_pos hc, if_pos hc]
        exact ⟨rfl, .here (.char hreturn hfeed h)⟩
      · rw [if_neg hc, if_neg hc]
        exact ⟨congrArg (c :: ·) ih.1, .char hreturn hfeed ih.2⟩
  | feed h => exact ⟨rfl, .here (.feed h)⟩
  | both h => exact ⟨rfl, .here (.both h)⟩

/-- A doc string ends at the same place, and its body is respelled. -/
theorem spanBody_respelled {quote : Char} (hreturn : quote ≠ '\r')
    (hfeed : quote ≠ '\n') {s s' : List Char} (h : Respelled s s')
    (inComment : Bool) :
    Respelled (spanBody quote inComment s).1 (spanBody quote inComment s').1
      ∧ Cut s s' (spanBody quote inComment s).2
        (spanBody quote inComment s').2 := by
  have hfence : Unbroken [quote, quote, quote] := by
    simp [Unbroken, hreturn, hfeed]
  have hnot : ∀ c, quote ≠ c → ∀ t : List Char,
      [quote, quote, quote].isPrefixOf (c :: t) = false := fun c hc t => by
    simp [List.isPrefixOf, beq_false_of_ne hc]
  induction h generalizing inComment with
  | nil => exact ⟨.nil, .here .nil⟩
  | @char c hr hf s s' h ih =>
      have hfront := (prefix_respelled hfence (.char hr hf h)).1
      simp only [spanBody, hfront]
      split
      · exact ⟨.nil, .here (.char hr hf h)⟩
      · exact ⟨.char hr hf (ih _).1, .char hr hf (ih _).2⟩
  | feed h ih =>
      simp only [spanBody, hnot _ hfeed, Bool.and_false, Bool.false_eq_true,
        if_false]
      exact ⟨.feed (ih _).1, .feed (ih _).2⟩
  | both h ih =>
      simp only [spanBody, hnot _ hfeed, hnot _ hreturn, Bool.and_false,
        Bool.false_eq_true, if_false, bne_self_eq_false]
      exact ⟨.both (ih _).1, .both (ih _).2⟩

/-- **The content of a doc string is the same.** -/
theorem docStringContent_respelled {s s' : List Char} (h : Respelled s s') :
    docStringContent s' = docStringContent s := by
  simp only [docStringContent, dedent_respelled h]

/-- A step keeps the same separator: what stands behind its keyword is
blank in both texts or is the same character. -/
theorem spelledKeyword_respelled {word : List Char} (hw : Unbroken word)
    {s s' : List Char} (h : Respelled s s') :
    spelledKeyword word s' = spelledKeyword word s := by
  have hbare : Unbroken (trimEnd word) := fun c hc =>
    hw c ((trimEnd_starts word).subset hc)
  obtain ⟨hfront, hcut⟩ := prefix_respelled hbare (trimStart_respelled h)
  simp only [spelledKeyword, hfront]
  cases hp : (trimEnd word).isPrefixOf (trimStart s) with
  | false => rfl
  | true =>
      have hbehind := (hcut hp).behind
      generalize (trimStart s).drop (trimEnd word).length = r at hbehind
      generalize (trimStart s').drop (trimEnd word).length = r' at hbehind
      cases hbehind with
      | nil | char | feed => rfl
      | both =>
          have hreturn : isBlank '\r' = true := by decide
          have hfeed : isBlank '\n' = true := by decide
          simp only [hreturn, hfeed]

end Grammar

end SoloScenario
