import SoloScenario.Text.Lines

/-!
# Gaps, breaks and comments

What may stand between the parts of a feature file.  A **space** here is
a space or a tab, no other blank.  A comment runs from `#` to the end of
its line, with the spaces before it, and a break may have one in front.

* `skipSpaces` — spaces;
* `atNewline?` — one line break, with a comment in front or without;
* `skipNewlines` — such breaks, one directly after the other;
* `skipBlankLines` — spaces and breaks with no comment in front;
* `skipGap` — spaces and breaks in any order;
* `atLineEnd?` — the end of a line: at least one space or break and all
  that follow, or the end of the text;
* `skipComments` — comment lines, each with the gap behind it.

The functions with a question mark answer `none` where there is no such
thing, and take something off the text where there is one
(`length_atGap_lt` and its siblings); only the end of the text is there
without a character.  That is why they can be repeated (`exhaust`), and
nothing here ever lengthens a text.
-/

namespace SoloScenario.Grammar

/-- A space or a tab. -/
def isSpace (c : Char) : Bool :=
  c == ' ' || c == '\t'

/-- Passes spaces. -/
def skipSpaces (s : List Char) : List Char :=
  s.dropWhile isSpace

/-- Behind the comment that `s` starts with, at the end of its line. -/
def atComment? (s : List Char) : Option (List Char) :=
  match skipSpaces s with
  | '#' :: r => some (Text.spanLine r).2
  | _ => none

/-- Behind the line break that `s` starts with, after a comment or
without one. -/
def atNewline? (s : List Char) : Option (List Char) :=
  Text.atBreak? ((atComment? s).getD s)

/-- Behind a bare line break or a single space. -/
def atBlank? : List Char → Option (List Char)
  | [] => none
  | c :: s => if isSpace c then some s else Text.atBreak? (c :: s)

/-- Behind a break or a single space. -/
def atGap? (s : List Char) : Option (List Char) :=
  match atNewline? s, s with
  | some r, _ => some r
  | none, c :: r => if isSpace c then some r else none
  | none, [] => none

/-- Passing spaces never lengthens the text. -/
theorem length_skipSpaces_le (s : List Char) :
    (skipSpaces s).length ≤ s.length :=
  (List.dropWhile_suffix _).length_le

/-- A comment takes something off the text. -/
theorem length_atComment_lt {s r : List Char} (h : atComment? s = some r) :
    r.length < s.length := by
  have hs := length_skipSpaces_le s
  unfold atComment? at h
  split at h
  · next t ht =>
      have hr := Text.length_spanLine_le t
      simp only [Option.some.injEq] at h
      simp only [ht, List.length_cons] at hs
      subst h
      omega
  · simp at h

/-- A break takes something off the text. -/
theorem length_atNewline_lt {s r : List Char} (h : atNewline? s = some r) :
    r.length < s.length := by
  have hb := Text.length_atBreak_lt h
  cases hc : atComment? s with
  | none => simpa [hc] using hb
  | some t =>
      have := length_atComment_lt hc
      simp only [hc, Option.getD_some] at hb
      omega

/-- A bare break or a space takes something off the text. -/
theorem length_atBlank_lt {s r : List Char} (h : atBlank? s = some r) :
    r.length < s.length := by
  unfold atBlank? at h
  split at h
  · simp at h
  · split at h
    · simp only [Option.some.injEq] at h
      simp [h]
    · exact Text.length_atBreak_lt h

/-- A break or a space takes something off the text. -/
theorem length_atGap_lt {s r : List Char} (h : atGap? s = some r) :
    r.length < s.length := by
  unfold atGap? at h
  split at h
  · next r' hn =>
      simp only [Option.some.injEq] at h
      exact h ▸ length_atNewline_lt hn
  · split at h <;> simp only [Option.some.injEq, reduceCtorEq] at h
    simp [h]
  · simp at h

/-- Applies again and again what takes something off the text. -/
def exhaust (f : List Char → Option (List Char))
    (shorter : ∀ {s r : List Char}, f s = some r → r.length < s.length)
    (s : List Char) : List Char :=
  match _h : f s with
  | none => s
  | some r => exhaust f shorter r
termination_by s.length
decreasing_by exact shorter _h

/-- Repeating a step never lengthens the text. -/
theorem length_exhaust_le (f : List Char → Option (List Char))
    (shorter : ∀ {s r : List Char}, f s = some r → r.length < s.length)
    (s : List Char) : (exhaust f shorter s).length ≤ s.length := by
  fun_induction exhaust f shorter s with
  | case1 => exact Nat.le_refl _
  | case2 s r h ih => exact Nat.le_trans ih (Nat.le_of_lt (shorter h))

/-- Passes line breaks that stand directly one after the other. -/
def skipNewlines (s : List Char) : List Char :=
  exhaust atNewline? length_atNewline_lt s

/-- Passes spaces and bare line breaks. -/
def skipBlankLines (s : List Char) : List Char :=
  exhaust atBlank? length_atBlank_lt s

/-- Passes spaces and breaks. -/
def skipGap (s : List Char) : List Char :=
  exhaust atGap? length_atGap_lt s

/-- Behind the end of a line. -/
def atLineEnd? (s : List Char) : Option (List Char) :=
  if s.isEmpty then some [] else (atGap? s).map skipGap

/-- Behind a comment and the end of its line. -/
def atCommentLine? (s : List Char) : Option (List Char) :=
  (atComment? s).bind atLineEnd?

/-- Passing a gap never lengthens the text. -/
theorem length_skipGap_le (s : List Char) : (skipGap s).length ≤ s.length :=
  length_exhaust_le _ _ s

/-- The end of a line never lengthens the text. -/
theorem length_atLineEnd_le {s r : List Char} (h : atLineEnd? s = some r) :
    r.length ≤ s.length := by
  unfold atLineEnd? at h
  split at h
  · simp only [Option.some.injEq] at h
    simp [← h]
  · obtain ⟨t, ht, rfl⟩ := Option.map_eq_some_iff.mp h
    exact Nat.le_trans (length_skipGap_le t)
      (Nat.le_of_lt (length_atGap_lt ht))

/-- A comment line takes something off the text. -/
theorem length_atCommentLine_lt {s r : List Char}
    (h : atCommentLine? s = some r) : r.length < s.length := by
  obtain ⟨t, ht, hr⟩ := Option.bind_eq_some_iff.mp h
  exact Nat.lt_of_le_of_lt (length_atLineEnd_le hr) (length_atComment_lt ht)

/-- Passes comments. -/
def skipComments (s : List Char) : List Char :=
  exhaust atCommentLine? length_atCommentLine_lt s

end SoloScenario.Grammar
