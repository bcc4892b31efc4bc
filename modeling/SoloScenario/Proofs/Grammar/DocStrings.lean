import SoloScenario.Proofs.Grammar.Arguments
import SoloScenario.Proofs.Text.Margins

/-!
# Doc strings that are written and read again

Whatever the indentation of a doc string in its source, it is written
without any, between fences that start their lines.  Reading it again takes
off the margin that its content has (`readAgain_eq`), so the content comes
back as it is exactly if reading it the first time left no margin in it.

* `EvenlyIndented` — no line of blanks departs from the indentation that
  the lines of text share;
* `takes_docString_again` — such a doc string comes back as it is and no
  other does, and what comes back stays.
-/

namespace SoloScenario.Grammar

open Reader Text

/-! ## What is written -/

/-- The content that is read of a doc string written with the given one. -/
def readAgain (content : List Char) : List Char :=
  docStringContent ('\n' :: (content ++ ['\n']))

/-- A break at the end makes one more piece, an empty one. -/
theorem pieces_newline (s : List Char) :
    pieces '\n' (s ++ ['\n']) = pieces '\n' s ++ [[]] := by
  obtain ⟨before, last, hs, happend⟩ := pieces_append '\n' s
  rw [happend ['\n'] [] [[]] rfl, hs, List.append_nil, List.append_assoc]
  rfl

/-- A break at the end does not change the margin. -/
theorem margin_newline {s : List Char} :
    margin (pieces '\n' (s ++ ['\n'])) = margin (pieces '\n' s) := by
  rw [pieces_newline, margin_append_nil]

/-- Nor does one in front. -/
theorem margin_newline_cons {s : List Char} :
    margin (pieces '\n' ('\n' :: s)) = margin (pieces '\n' s) := by
  rw [pieces_separator]
  rfl

/-- The line breaks next to the fences do not touch the margin. -/
theorem dedent_between_breaks {s : List Char} (h : '\r' ∉ s) :
    dedent ('\n' :: (s ++ ['\n'])) = '\n' :: (dedent s ++ ['\n']) := by
  have hreturn : '\r' ∉ '\n' :: (s ++ ['\n']) := by simpa using h
  rw [← joinPieces_pieces '\n' (dedent ('\n' :: (s ++ ['\n']))),
    ← joinPieces_pieces '\n' ('\n' :: (dedent s ++ ['\n']))]
  refine congrArg _ ?_
  rw [pieces_dedent hreturn, margin_newline_cons, margin_newline,
    pieces_separator, pieces_separator, pieces_newline, pieces_newline,
    pieces_dedent h, List.map_cons, List.map_append]
  rfl

/-- **What is read again is the content without its margin.** -/
theorem readAgain_eq {content : List Char} (h : '\r' ∉ content) :
    readAgain content = dedent content := by
  rw [readAgain, docStringContent, dedent_between_breaks h]
  exact dropLastBreak_newline (no_return_newline (no_return_dedent h))

/-! ## What is left in a body -/

/-- A first break is a line feed, with a carriage return or without. -/
theorem dropFirstBreak_cases (s : List Char) :
    s = dropFirstBreak s ∨ s = '\n' :: dropFirstBreak s
      ∨ s = '\r' :: '\n' :: dropFirstBreak s := by
  rw [dropFirstBreak]
  unfold atBreak?
  split <;> simp

/-- Without carriage returns it is a line feed. -/
theorem dropFirstBreak_of_no_return {s : List Char} (h : '\r' ∉ s) :
    s = dropFirstBreak s ∨ s = '\n' :: dropFirstBreak s := by
  rcases dropFirstBreak_cases s with hs | hs | hs
  · exact .inl hs
  · exact .inr hs
  · rw [hs] at h
    exact absurd List.mem_cons_self h

/-- So is a last break. -/
theorem dropLastBreak_of_no_return {s : List Char} (h : '\r' ∉ s) :
    s = dropLastBreak s ∨ s = dropLastBreak s ++ ['\n'] := by
  rcases dropLastBreak_cases s with hs | hs | hs
  · exact .inl hs
  · exact .inr hs
  · rw [hs] at h
    exact absurd (by simp) h

/-- What is left of a text without its outer breaks. -/
theorem dropBreaks_of_no_return {s : List Char} (h : '\r' ∉ s) :
    dropLastBreak (dropFirstBreak s) <:+: s
      ∧ margin (pieces '\n' (dropLastBreak (dropFirstBreak s)))
        = margin (pieces '\n' s) := by
  have hfirst : dropFirstBreak s <:+: s
      ∧ margin (pieces '\n' (dropFirstBreak s)) = margin (pieces '\n' s) := by
    rcases dropFirstBreak_of_no_return h with hs | hs
    · rw [← hs]
      exact ⟨List.infix_rfl, rfl⟩
    · conv_rhs => rw [hs, margin_newline_cons]
      refine ⟨?_, rfl⟩
      conv_rhs => rw [hs]
      exact (List.suffix_cons _ _).isInfix
  have hreturn : '\r' ∉ dropFirstBreak s :=
    fun hr => h (hfirst.1.subset hr)
  rcases dropLastBreak_of_no_return hreturn with hs | hs
  · rw [← hs]
    exact hfirst
  · rw [hs] at hfirst
    rw [margin_newline] at hfirst
    exact ⟨(List.prefix_append _ _).isInfix.trans hfirst.1, hfirst.2⟩

/-- **The content of a body without carriage returns:** a part of the body
without its margin, with no line of blanks and with the margin that is left
in the body. -/
theorem docStringContent_spec {body : List Char} (h : '\r' ∉ body) :
    docStringContent body <:+: dedent body
      ∧ NoBlankLine (docStringContent body)
      ∧ margin (pieces '\n' (docStringContent body))
        = margin (pieces '\n' (dedent body)) := by
  obtain ⟨hinside, hmargin⟩ := dropBreaks_of_no_return (no_return_dedent h)
  exact ⟨hinside, noBlankLine_dropLastBreak
    (noBlankLine_dropFirstBreak (noBlankLine_dedent body)), hmargin⟩

/-! ## What comes back -/

/-- The indentation that the lines of text share is not cut down by a line
of blanks: behind the first line of text each line of blanks starts that
indentation or goes on behind it. -/
def EvenlyIndented (body : List Char) : Prop :=
  ∀ l ∈ (pieces '\n' body).dropWhile isAllBlank, isAllBlank l = true →
    l <+: margin (textLines (pieces '\n' body))
      ∨ margin (textLines (pieces '\n' body)) <+: l

/-- Whether a body is evenly indented is decided by looking at its lines. -/
instance (body : List Char) : Decidable (EvenlyIndented body) :=
  inferInstanceAs (Decidable (∀ l ∈ (pieces '\n' body).dropWhile isAllBlank,
    isAllBlank l = true → l <+: margin (textLines (pieces '\n' body))
      ∨ margin (textLines (pieces '\n' body)) <+: l))

/-- No margin is left in the text of an evenly indented body. -/
theorem margin_dedent_eq_nil_iff {body : List Char} (h : '\r' ∉ body) :
    margin (pieces '\n' (dedent body)) = [] ↔ EvenlyIndented body := by
  have hleft := margin_dedent h
  rw [EvenlyIndented, ← margin_eq_margin_textLines_iff]
  constructor
  · intro hnone
    rw [hleft, hnone, List.append_nil]
  · intro hsame
    rw [← hsame] at hleft
    exact List.self_eq_append_right.mp hleft

/-- **A doc string written and read again.**  The body may not hold a
carriage return, nor the quotes that are its fence when it is written.  Its
content is read up to the closing fence; it comes back as it is if the body
is evenly indented, and only then; and what has come back once comes back
as it is. -/
theorem takes_docString_again {body : List Char} (hreturn : '\r' ∉ body)
    (hfence : ¬ ['"', '"', '"'] <:+: body) {r : List Char} (hr : Flush r) :
    Takes docString
        (textOf (StepArgument.docString
          (String.ofList (docStringContent body))).lines ++ r)
        (String.ofList (readAgain (docStringContent body))) r
      ∧ (readAgain (docStringContent body) = docStringContent body
        ↔ EvenlyIndented body)
      ∧ readAgain (readAgain (docStringContent body))
        = readAgain (docStringContent body) := by
  obtain ⟨hinside, hblank, hmargin⟩ := docStringContent_spec hreturn
  have hreturn' : '\r' ∉ docStringContent body := fun hc =>
    no_return_dedent hreturn (hinside.subset hc)
  have hfence' : ¬ ['"', '"', '"'] <:+: docStringContent body ++ ['\n'] :=
    fun hc => hfence <| infix_of_infix_dedent hreturn (by decide) <|
      (infix_of_append_newline hc (by simp) (by decide)).trans hinside
  refine ⟨takes_docString_written (spanBody_of_no_fence hfence' false) hr,
    ?_, ?_⟩
  · rw [readAgain_eq hreturn', dedent_eq_self_iff hreturn' hblank, hmargin]
    exact margin_dedent_eq_nil_iff hreturn
  · rw [readAgain_eq hreturn', readAgain_eq (no_return_dedent hreturn')]
    exact dedent_dedent hreturn' hblank

/-- A doc string indented by a tab, with an empty line and with a closing
fence that is indented less than its text. -/
theorem takes_docString_again_tabs :
    '\r' ∉ "\n\t a\n\n\t b\n\t".toList
      ∧ ¬ ['"', '"', '"'] <:+: "\n\t a\n\n\t b\n\t".toList
      ∧ Flush []
      ∧ docStringContent "\n\t a\n\n\t b\n\t".toList = "a\n\nb".toList
      ∧ readAgain "a\n\nb".toList = "a\n\nb".toList := by
  have hreturn : '\r' ∉ "\n\t a\n\n\t b\n\t".toList := by decide
  have hfence : ¬ ['"', '"', '"'] <:+: "\n\t a\n\n\t b\n\t".toList := by
    decide
  have hcontent : docStringContent "\n\t a\n\n\t b\n\t".toList
      = "a\n\nb".toList := by decide
  have hcome := (takes_docString_again hreturn hfence flush_nil).2.1.mpr
    (by decide)
  rw [hcontent] at hcome
  exact ⟨hreturn, hfence, flush_nil, hcontent, hcome⟩

/-- **Not every content comes back.**  A closing fence that is indented by a
tab cuts down the margin of a text that is indented by blanks.  The content
keeps its indentation then, and loses it when it is written and read. -/
theorem docString_loses_margin :
    '\r' ∉ "\n    a\n\t".toList
      ∧ ¬ ['"', '"', '"'] <:+: "\n    a\n\t".toList
      ∧ Takes docString "\"\"\"\n    a\n\t\"\"\"\n".toList "    a" []
      ∧ docStringContent "\n    a\n\t".toList = "    a".toList
      ∧ docStringContent ('\n' :: ("    a".toList ++ ['\n'])) = ['a'] := by
  refine ⟨by decide, by decide, ⟨by cbv, by cbv⟩, by decide, by decide⟩

end SoloScenario.Grammar
