import SoloScenario.Proofs.Grammar.ReadBack

/-!
# Lines with a step

A step's line starts, behind its indentation, with a word of the dialect;
spaces may follow, and then the text of the step.  The step keeps the word
without the blanks at its end, and sets it off with a space unless the line
goes on at once.

* `StepLine`, `StandsIn`, `Shows` — such a line, its place in a text, and
  the step that is read of it;
* `Shows.keyword_eq` — how the step's keyword is spelled;
* `Shows.line_iff` — when keyword and text are the line;
* `Shows.recovered` — the keyword is found again in keyword and text.
-/

namespace SoloScenario

open Grammar Text

/-! ## Lines with a step -/

/-- A line with a step, cut out of a text: what stands in front of it, the
word that it starts with, the spaces behind that, the text of the step, the
blanks at the end of the line, and what stands behind it. -/
structure StepLine where
  before : List Char
  word : String
  gap : List Char
  text : List Char
  trailing : List Char
  behind : List Char

namespace StepLine

/-- The word without the blanks at its end. -/
def bare (l : StepLine) : List Char :=
  trimEnd l.word.toList

/-- The line from its word on. -/
def chars (l : StepLine) : List Char :=
  l.bare ++ (l.gap ++ (l.text ++ l.trailing))

/-- The text from the word on. -/
def rest (l : StepLine) : List Char :=
  l.chars ++ l.behind

/-- The line with one space instead of any number of them behind the word,
and none instead of none. -/
def spaced (l : StepLine) : List Char :=
  l.bare ++ ((if l.gap = [] then [] else [' ']) ++ l.text)

/-- What sets the keyword off: a space, unless the line goes on behind the
word with something else than a blank. -/
def separator (l : StepLine) : List Char :=
  match l.gap ++ l.text with
  | [] => [' ']
  | c :: _ => if isBlank c then [' '] else []

/-- The later line starts behind the earlier one. -/
def Follows (l l' : StepLine) : Prop :=
  l'.rest <:+ l.behind

end StepLine

/-- What may stand in front of a step: the indentation of its line, or the
closing fence of a doc string with a space behind it. -/
inductive Begins : List Char → Prop
  | line (x : List Char) {indent : List Char}
      (h : ∀ c ∈ indent, isSpace c = true) : Begins (x ++ '\n' :: indent)
  | fence (x : List Char) {quote : Char} {indent : List Char}
      (hquote : quote = '"' ∨ quote = '\x60') (hne : indent ≠ [])
      (h : ∀ c ∈ indent, isSpace c = true) :
      Begins (x ++ quote :: quote :: quote :: indent)

/-- The words for steps, kind by kind. -/
def Dialect.stepKinds (d : Dialect) : List (List String) :=
  [d.givenWords, d.whenWords, d.thenWords, d.andWords, d.butWords]

/-- The words of one kind are among those of all kinds. -/
theorem Dialect.subset_stepWords {d : Dialect} {words : List String}
    (h : words ∈ d.stepKinds) : words ⊆ d.stepWords := by
  intro w hw
  simp only [stepKinds, List.mem_cons, List.not_mem_nil, or_false] at h
  rcases h with rfl | rfl | rfl | rfl | rfl <;> simp [stepWords, hw]

/-- The line stands in the text, up to the end of a line, and starts with
the first word for its kind of step that stands there. -/
structure StandsIn (d : Dialect) (source : List Char) (l : StepLine) :
    Prop where
  whole : l.before ++ l.rest = source
  begins : Begins l.before
  ends : spanLine l.rest = (l.chars, l.behind)
  fits : ∃ words ∈ d.stepKinds, Fits words l.rest l.word
  gap : ∀ c ∈ l.gap, isSpace c = true
  text : Settled l.text
  trailing : isAllBlank l.trailing = true
  nonempty : l.text ++ l.trailing ≠ []

/-- The word of a line is one of the dialect's. -/
theorem StandsIn.word {d : Dialect} {source : List Char} {l : StepLine}
    (h : StandsIn d source l) : l.word ∈ d.stepWords := by
  obtain ⟨words, hkind, hfits⟩ := h.fits
  exact Dialect.subset_stepWords hkind hfits.mem

/-- The step is read of the line. -/
structure Shows (l : StepLine) (st : Step) : Prop where
  keyword : st.keyword.toList = spelledKeyword l.word.toList l.rest
  text : st.text.toList = l.text

/-! ## Cutting a line out of a text -/

/-- What is trimmed from the end is blank. -/
theorem isAllBlank_drop_trimEnd (s : List Char) :
    isAllBlank (s.drop (trimEnd s).length) = true := by
  induction s with
  | nil => rfl
  | cons c s ih =>
      rw [trimEnd]
      split
      · next hnil =>
          rw [hnil] at ih
          split
          · next hc =>
              exact Bool.and_eq_true_iff.mpr ⟨hc, ih⟩
          · exact ih
      · exact ih

/-- What stands in front of a text on its first line. -/
theorem spanLine_append_of_ne_nil {s t : List Char} (hs : '\n' ∉ s)
    (ht : (spanLine t).1 ≠ []) :
    spanLine (s ++ t) = (s ++ (spanLine t).1, (spanLine t).2) := by
  induction s with
  | nil => rfl
  | cons c s ih =>
      obtain ⟨hc, hrest⟩ := List.ne_and_not_mem_of_not_mem_cons hs
      have hnext : (s ++ t).head? ≠ some '\n' := by
        cases s with
        | nil =>
            rw [List.nil_append, ← head?_spanLine ht]
            intro hfeed
            exact no_feed_spanLine t (List.mem_of_mem_head? hfeed)
        | cons e s => simpa using (List.ne_of_not_mem_cons hrest).symm
      rw [List.cons_append, spanLine, atBreak?_cons hc.symm hnext, ih hrest]
      rfl

/-- The line on which a word is found, with `u` behind it: the spaces there
belong to the gap, and the rest of the line to the text. -/
def StepLine.cut (before : List Char) (w : String) (u : List Char) :
    StepLine where
  before := before
  word := w
  gap := w.toList.drop (trimEnd w.toList).length ++ u.takeWhile isSpace
  text := trimEnd (spanLine (skipSpaces u)).1
  trailing := (spanLine (skipSpaces u)).1.drop
    (trimEnd (spanLine (skipSpaces u)).1).length
  behind := (spanLine (skipSpaces u)).2

/-- The spaces at the front, and what is left. -/
theorem takeWhile_append_skipSpaces (u : List Char) :
    u.takeWhile isSpace ++ skipSpaces u = u :=
  List.takeWhile_append_dropWhile

/-- The characters of a line that is cut at its word are the word, the spaces
and the text up to the break. -/
theorem StepLine.chars_cut (before : List Char) (w : String)
    (u : List Char) : (StepLine.cut before w u).chars
      = (w.toList ++ u.takeWhile isSpace) ++ (spanLine (skipSpaces u)).1 := by
  have hword := trimEnd_append_drop w.toList
  have hline := trimEnd_append_drop (spanLine (skipSpaces u)).1
  simp only [StepLine.chars, StepLine.bare, StepLine.cut, List.append_assoc]
  rw [hline, ← List.append_assoc, hword]

/-- From its word on it is the word and all behind it. -/
theorem StepLine.rest_cut (before : List Char) (w : String) (u : List Char) :
    (StepLine.cut before w u).rest = w.toList ++ u := by
  have hline : (spanLine (skipSpaces u)).1 ++ (StepLine.cut before w u).behind
      = skipSpaces u := spanLine_append _
  rw [StepLine.rest, chars_cut, List.append_assoc, hline, List.append_assoc,
    takeWhile_append_skipSpaces]

/-- **A line that is cut at its word stands in the source.** -/
theorem standsIn_cut {d : Dialect} (hd : d.Clear) {words : List String}
    (hkind : words ∈ d.stepKinds) {before u : List Char} {w : String}
    (hbegins : Begins before) (hfits : Fits words (w.toList ++ u) w)
    (hne : (spanLine (skipSpaces u)).1 ≠ []) :
    StandsIn d (before ++ (w.toList ++ u)) (.cut before w u) where
  whole := by
    rw [StepLine.rest_cut]
    rfl
  begins := hbegins
  ends := by
    have hfeed : '\n' ∉ w.toList ++ u.takeWhile isSpace := by
      intro hn
      rcases List.mem_append.mp hn with hn | hn
      · exact hd.step_no_feed w (Dialect.subset_stepWords hkind hfits.mem) hn
      · have hspace := List.all_eq_true.mp List.all_takeWhile _ hn
        simp [isSpace] at hspace
    have hends := spanLine_append_of_ne_nil hfeed hne
    rw [List.append_assoc, takeWhile_append_skipSpaces] at hends
    rw [StepLine.rest_cut, StepLine.chars_cut, hends]
    rfl
  fits := by
    refine ⟨words, hkind, ?_⟩
    rw [StepLine.rest_cut]
    exact hfits
  gap := by
    intro c hc
    rcases List.mem_append.mp hc with hc | hc
    · exact hd.separator w (Dialect.subset_stepWords hkind hfits.mem) c hc
    · exact List.all_eq_true.mp List.all_takeWhile c hc
  text := by
    refine settled_trimEnd (no_feed_spanLine _) ?_
    rw [head?_spanLine hne]
    exact skipSpaces_head u
  trailing := isAllBlank_drop_trimEnd _
  nonempty := by
    have hline := trimEnd_append_drop (spanLine (skipSpaces u)).1
    rw [StepLine.cut, hline]
    exact hne

/-! ## The step of a line -/

/-- A space is a blank. -/
theorem isBlank_of_isSpace {c : Char} (h : isSpace c = true) :
    isBlank c = true := by
  by_contra hnot
  rw [Bool.not_eq_true] at hnot
  rw [isSpace_of_not_blank hnot] at h
  exact Bool.false_ne_true h

/-- **How a keyword is spelled**, said on its line. -/
theorem Shows.keyword_eq {d : Dialect} (hd : d.Clear) {source : List Char}
    {l : StepLine} {st : Step} (hl : StandsIn d source l) (h : Shows l st) :
    st.keyword.toList = l.bare ++ l.separator := by
  have hword := hd.step hl.word
  have hrest : l.rest = trimEnd l.word.toList
      ++ ((l.gap ++ l.text) ++ (l.trailing ++ l.behind)) := by
    simp [StepLine.rest, StepLine.chars, StepLine.bare]
  rw [h.keyword, hrest, StepLine.separator]
  rcases hgap : l.gap ++ l.text with _ | ⟨c, u⟩
  · -- There is a blank at least, for the line goes on behind its word.
    have hne := hl.nonempty
    rw [(List.append_eq_nil_iff.mp hgap).2, List.nil_append] at hne
    obtain ⟨c, u, hc⟩ := List.exists_cons_of_ne_nil hne
    have hblank : isBlank c = true :=
      List.all_eq_true.mp hl.trailing c (by simp [hc])
    rw [hc, List.nil_append, List.cons_append, spelledKeyword_eq hword,
      if_pos hblank]
    rfl
  · rw [List.cons_append, spelledKeyword_eq hword]
    by_cases hc : isBlank c = true
    · simp [hc, StepLine.bare]
    · simp [hc, StepLine.bare]

/-- **Keyword and text are the line**, up to blanks at the end and with the
spaces between them made one, unless the text starts with a blank right
behind the word. -/
theorem Shows.line_iff {d : Dialect} (hd : d.Clear) {source : List Char}
    {l : StepLine} {st : Step} (hl : StandsIn d source l) (h : Shows l st) :
    trimEnd (st.keyword ++ st.text).toList = trimEnd l.spaced
      ↔ ¬ (l.gap = [] ∧ ∃ c ∈ l.text.head?, isBlank c = true) := by
  rw [String.toList_append, h.keyword_eq hd hl, h.text, StepLine.spaced,
    StepLine.separator, List.append_assoc]
  rcases hgap : l.gap with _ | ⟨c, g⟩
  · rcases htext : l.text with _ | ⟨c, u⟩
    · have hspace := trimEnd_append_blank l.bare (c := ' ') (by decide)
      simpa using hspace
    · by_cases hc : isBlank c = true
      · -- One of the two has a space more, and neither has a blank to trim.
        have hlast : ∀ x : List Char,
            trimEnd (x ++ c :: u) = x ++ c :: u := by
          intro x
          refine trimEnd_of_last fun e he => hl.text.last e ?_
          rw [htext]
          simpa [List.getLast?_append] using he
        have hspace : trimEnd (l.bare ++ ' ' :: c :: u)
            = l.bare ++ ' ' :: c :: u := by
          simpa using hlast (l.bare ++ [' '])
        simp [hc, hlast, hspace]
      · simp [hc]
  · have hc : isBlank c = true :=
      isBlank_of_isSpace (hl.gap c (by simp [hgap]))
    simp [hc]

/-- **The keyword is found again** where the step's line is written as its
keyword and its text. -/
theorem Shows.recovered {d : Dialect} (hd : d.Clear) {source : List Char}
    {l : StepLine} {st : Step} (hl : StandsIn d source l) (h : Shows l st) :
    spelledKeyword l.word.toList (st.keyword ++ st.text).toList
      = st.keyword.toList := by
  have hword := hd.step hl.word
  rw [String.toList_append, h.keyword_eq hd hl, h.text, StepLine.separator,
    StepLine.bare]
  have hspace : spelledKeyword l.word.toList
      (trimEnd l.word.toList ++ ' ' :: l.text)
        = trimEnd l.word.toList ++ [' '] := by
    rw [spelledKeyword_eq hword, if_pos (by decide)]
  rcases hgap : l.gap ++ l.text with _ | ⟨c, u⟩
  · simpa using hspace
  · by_cases hc : isBlank c = true
    · simpa [hc] using hspace
    · -- A gap would start with a blank.
      have hnone : l.gap = [] := by
        rcases hg : l.gap with _ | ⟨e, g⟩
        · rfl
        · rw [hg] at hgap
          obtain rfl : e = c := (List.cons.inj hgap).1
          exact absurd (isBlank_of_isSpace (hl.gap e (by simp [hg]))) hc
      rw [hnone, List.nil_append] at hgap
      simpa [hc, hgap] using spelledKeyword_eq hword c u

end SoloScenario
