import Mathlib.Data.List.Find
import SoloScenario.Grammar.Keyword
import SoloScenario.Proofs.Grammar.Reading

/-!
# Reading whole lines

Text that is written line by line leaves no room for doubt about gaps: a
line that is `Flush` starts with neither space, break nor comment, so all
that is passed between two such lines is the line feed.

* `Flush` and what is passed in front of such a text;
* `Trimmed`, `Settled` — what can stand on a line and come back whole;
* `Fits` — which word of a list is found, and that what stands behind the
  line does not matter (`fits_stop`);
* `takes_word`, `takes_lineText`, `takes_heading` — keywords, the text
  behind them, and headings.
-/

namespace SoloScenario.Text

/-- No blank stands at either end. -/
structure Trimmed (s : List Char) : Prop where
  head : ∀ c ∈ s.head?, isBlank c = false
  last : ∀ c ∈ s.getLast?, isBlank c = false

/-- A text that ends in no blank has none to trim. -/
theorem trimEnd_of_last {s : List Char}
    (h : ∀ c ∈ s.getLast?, isBlank c = false) : trimEnd s = s := by
  induction s with
  | nil => rfl
  | cons c s ih =>
      cases s with
      | nil =>
          have hc : isBlank c = false := h c rfl
          simp [trimEnd, hc]
      | cons d s =>
          have hrest := ih fun e he => h e (by simpa using he)
          rw [trimEnd, hrest]

/-- A text that starts with no blank has none to trim. -/
theorem trimStart_of_head {s : List Char}
    (h : ∀ c ∈ s.head?, isBlank c = false) : trimStart s = s := by
  cases s with
  | nil => rfl
  | cons c s =>
      have hc : isBlank c = false := h c rfl
      simp [trimStart, hc]

/-- A trimmed text stays as it is. -/
theorem Trimmed.trim {s : List Char} (h : Trimmed s) : trim s = s := by
  rw [Text.trim, trimStart_of_head h.head, trimEnd_of_last h.last]

/-- A text without blanks is trimmed. -/
theorem trimmed_of_all {s : List Char}
    (h : s.all (fun c => !isBlank c) = true) : Trimmed s := by
  have hall : ∀ c ∈ s, isBlank c = false := fun c hc => by
    simpa using List.all_eq_true.mp h c hc
  exact ⟨fun c hc => hall c (List.mem_of_mem_head? hc),
    fun c hc => hall c (List.mem_of_getLast? hc)⟩

/-- What does not end in a line feed stands in front of the last one. -/
theorem infix_of_append_newline {w s : List Char} (h : w <:+: s ++ ['\n'])
    (hne : w ≠ []) (hlast : w.getLast? ≠ some '\n') : w <:+: s := by
  obtain ⟨before, behind, hs⟩ := h
  rcases List.eq_nil_or_concat behind with rfl | ⟨behind, c, rfl⟩
  · have hend := congrArg List.getLast? hs
    rw [List.append_nil, List.getLast?_append,
      List.getLast?_eq_some_getLast hne] at hend
    rw [List.getLast?_eq_some_getLast hne] at hlast
    exact absurd (by simpa using hend) hlast
  · rw [List.concat_eq_append, ← List.append_assoc] at hs
    exact ⟨before, behind, (List.append_inj' hs rfl).1⟩

/-- Only a line feed or a carriage return begins a break. -/
theorem atBreak?_of_ne {c : Char} (s : List Char) (hn : c ≠ '\n')
    (hr : c ≠ '\r') : atBreak? (c :: s) = none := by
  unfold atBreak?
  split <;> simp_all

/-- A carriage return is part of a break only in front of a line feed. -/
theorem atBreak?_cons {c : Char} {s : List Char} (hc : c ≠ '\n')
    (hs : s.head? ≠ some '\n') : atBreak? (c :: s) = none := by
  unfold atBreak?
  split <;> simp_all

/-- A line ends at its line feed, unless a carriage return stands in front
of that. -/
theorem spanLine_line {s : List Char} (hn : '\n' ∉ s)
    (hr : s.getLast? ≠ some '\r') (r : List Char) :
    spanLine (s ++ '\n' :: r) = (s, '\n' :: r) := by
  induction s with
  | nil => rfl
  | cons c s ih =>
      obtain ⟨hc, hs⟩ := List.ne_and_not_mem_of_not_mem_cons hn
      have hbreak : atBreak? (c :: (s ++ '\n' :: r)) = none := by
        cases s with
        | nil =>
            have hcr : c ≠ '\r' := by simpa using hr
            exact atBreak?_of_ne _ (Ne.symm hc) hcr
        | cons d s =>
            have hd : d ≠ '\n' := fun h => hs (h ▸ List.mem_cons_self)
            exact atBreak?_cons (Ne.symm hc) (by simpa using hd)
      have hlast : s.getLast? ≠ some '\r' := by
        cases s with
        | nil => simp
        | cons d s => simpa using hr
      rw [List.cons_append, spanLine, hbreak, ih hs hlast]
      rfl

end SoloScenario.Text

namespace SoloScenario.Grammar

open Reader Text

/-- The text of some lines, each with its line feed. -/
def textOf (ls : List String) : List Char :=
  ls.flatMap fun l => l.toList ++ ['\n']

/-- No lines make no text. -/
@[simp] theorem textOf_nil : textOf [] = [] := rfl

/-- The first line is written first. -/
@[simp] theorem textOf_cons (l : String) (ls : List String) :
    textOf (l :: ls) = l.toList ++ '\n' :: textOf ls := by
  simp [textOf]

/-- Lines behind others are written behind them. -/
@[simp] theorem textOf_append (ls ms : List String) :
    textOf (ls ++ ms) = textOf ls ++ textOf ms :=
  List.flatMap_append

/-- The characters of lines that are joined are theirs in a row, each with its
ending. -/
theorem join_append_toList (ls : List String) (e : String) :
    (String.join (ls.map (· ++ e))).toList
      = ls.flatMap fun l => l.toList ++ e.toList := by
  induction ls with
  | nil => rfl
  | cons l ls ih => simp [ih]

/-! ## Gaps in front of a line -/

/-- What holds of the first character is all that there is to hold of the
front. -/
theorem forall_head {P : Char → Prop} {c : Char} (h : P c) (s : List Char) :
    ∀ d ∈ (c :: s).head?, P d := by
  intro d hd
  obtain rfl : c = d := by simpa using hd
  exact h

/-- No space, break or comment stands at the start of the text. -/
def Flush (r : List Char) : Prop :=
  ∀ c ∈ r.head?, isSpace c = false ∧ c ≠ '#' ∧ c ≠ '\n' ∧ c ≠ '\r'

/-- At the end of the text nothing stands in the way. -/
theorem flush_nil : Flush [] := by
  simp [Flush]

/-- A text is flush if its first character is none of a gap. -/
theorem flush_cons {c : Char}
    (h : isSpace c = false ∧ c ≠ '#' ∧ c ≠ '\n' ∧ c ≠ '\r')
    (r : List Char) : Flush (c :: r) :=
  forall_head h r

/-- A character that is no blank is not the same as one that is. -/
theorem ne_of_not_blank {c d : Char} (h : isBlank c = false)
    (hd : isBlank d = true) : c ≠ d := by
  rintro rfl
  simp [hd] at h

/-- A space is a blank. -/
theorem isSpace_of_not_blank {c : Char} (h : isBlank c = false) :
    isSpace c = false := by
  have hspace : c ≠ ' ' := ne_of_not_blank h (by decide)
  have htab : c ≠ '\t' := ne_of_not_blank h (by decide)
  simp [isSpace, hspace, htab]

/-- A text that starts with no space has none to pass. -/
theorem skipSpaces_of_head {r : List Char}
    (h : ∀ c ∈ r.head?, isSpace c = false) : skipSpaces r = r := by
  cases r with
  | nil => rfl
  | cons c r =>
      have hc : isSpace c = false := h c rfl
      simp [skipSpaces, hc]

/-- A line feed is no space. -/
theorem skipSpaces_newline (r : List Char) :
    skipSpaces ('\n' :: r) = '\n' :: r :=
  skipSpaces_of_head (forall_head (by decide) r)

/-- A text that can stand on a line behind spaces and come back whole. -/
structure Settled (s : List Char) : Prop where
  no_feed : '\n' ∉ s
  head : ∀ c ∈ s.head?, isSpace c = false
  last : ∀ c ∈ s.getLast?, isBlank c = false

/-- No text is settled. -/
theorem settled_nil : Settled [] :=
  ⟨by simp, by simp, by simp⟩

/-- A trimmed text on one line is settled. -/
theorem settled_of_trimmed {s : List Char} (h : Trimmed s)
    (hn : '\n' ∉ s) : Settled s :=
  ⟨hn, fun c hc => isSpace_of_not_blank (h.head c hc), h.last⟩

/-- Settled text does not end in a carriage return. -/
theorem Settled.no_return {s : List Char} (h : Settled s) :
    s.getLast? ≠ some '\r' := by
  intro hr
  exact ne_of_not_blank (h.last '\r' hr) (by decide) rfl

/-- No space of a line is passed but those in front of its text. -/
theorem Settled.skipSpaces {s : List Char} (h : Settled s) (r : List Char) :
    skipSpaces (s ++ '\n' :: r) = s ++ '\n' :: r := by
  cases s with
  | nil => exact skipSpaces_newline r
  | cons d s =>
      exact skipSpaces_of_head (forall_head (h.head d rfl) _)

/-- What cannot be done is not repeated. -/
theorem exhaust_of_none {g : List Char → Option (List Char)}
    {shorter : ∀ {s r : List Char}, g s = some r → r.length < s.length}
    {s : List Char} (h : g s = none) : exhaust g shorter s = s := by
  rw [exhaust]
  split <;> simp_all

/-- What can be done is done once, then again. -/
theorem exhaust_of_some {g : List Char → Option (List Char)}
    {shorter : ∀ {s r : List Char}, g s = some r → r.length < s.length}
    {s r : List Char} (h : g s = some r) :
    exhaust g shorter s = exhaust g shorter r := by
  rw [exhaust]
  split <;> simp_all

/-- A comment starts with its sign, behind spaces. -/
theorem atComment?_of_head {s : List Char} (hspace : skipSpaces s = s)
    (h : ∀ c ∈ s.head?, c ≠ '#') : atComment? s = none := by
  rw [atComment?, hspace]
  cases s with
  | nil => rfl
  | cons c s =>
      have hc : c ≠ '#' := h c rfl
      split <;> simp_all

/-- It ends where its line does. -/
theorem atComment?_eq_some {s r : List Char} (h : atComment? s = some r) :
    ∃ t, skipSpaces s = '#' :: t ∧ r = (spanLine t).2 := by
  unfold atComment? at h
  split at h
  · next t ht => exact ⟨t, ht, (Option.some.inj h).symm⟩
  · simp at h

namespace Flush

variable {r : List Char}

/-- No space is passed. -/
theorem skipSpaces (h : Flush r) : skipSpaces r = r :=
  skipSpaces_of_head fun c hc => (h c hc).1

/-- No comment starts here. -/
theorem atComment? (h : Flush r) : atComment? r = none :=
  atComment?_of_head h.skipSpaces fun c hc => (h c hc).2.1

/-- No break starts here, with a comment or without. -/
theorem atNewline? (h : Flush r) : atNewline? r = none := by
  rw [Grammar.atNewline?, h.atComment?]
  cases r with
  | nil => rfl
  | cons c r =>
      obtain ⟨-, -, hn, hr⟩ := h c rfl
      exact atBreak?_of_ne r hn hr

/-- No gap starts here. -/
theorem atGap? (h : Flush r) : atGap? r = none := by
  unfold Grammar.atGap?
  rw [h.atNewline?]
  cases r with
  | nil => rfl
  | cons c r =>
      have hc : isSpace c = false := (h c rfl).1
      simp [hc]

/-- No blank line is passed. -/
theorem skipBlankLines (h : Flush r) : skipBlankLines r = r := by
  refine exhaust_of_none ?_
  cases r with
  | nil => rfl
  | cons c r =>
      obtain ⟨hspace, -, hn, hr⟩ := h c rfl
      rw [atBlank?, hspace]
      exact atBreak?_of_ne r hn hr

/-- No gap is passed. -/
theorem skipGap (h : Flush r) : skipGap r = r :=
  exhaust_of_none h.atGap?

/-- No break is passed. -/
theorem skipNewlines (h : Flush r) : skipNewlines r = r :=
  exhaust_of_none h.atNewline?

/-- No comment is passed. -/
theorem skipComments (h : Flush r) : skipComments r = r := by
  refine exhaust_of_none ?_
  rw [atCommentLine?, h.atComment?]
  rfl

end Flush

/-- A line feed is a break. -/
theorem atNewline?_newline (r : List Char) :
    atNewline? ('\n' :: r) = some r := by
  have h : atComment? ('\n' :: r) = none :=
    atComment?_of_head (skipSpaces_newline r) (forall_head (by decide) r)
  rw [atNewline?, h]
  rfl

/-- A line feed is a gap. -/
theorem atGap?_newline (r : List Char) : atGap? ('\n' :: r) = some r := by
  unfold atGap?
  rw [atNewline?_newline]

/-- A line feed is all that is passed in front of a flush text. -/
theorem Flush.skipGap_newline {r : List Char} (h : Flush r) :
    Grammar.skipGap ('\n' :: r) = r :=
  (exhaust_of_some (atGap?_newline r)).trans h.skipGap

/-- So it is if only breaks are passed. -/
theorem Flush.skipNewlines_newline {r : List Char} (h : Flush r) :
    Grammar.skipNewlines ('\n' :: r) = r :=
  (exhaust_of_some (atNewline?_newline r)).trans h.skipNewlines

/-- Between two lines there is nothing but the line feed. -/
theorem Flush.atLineEnd?_newline {r : List Char} (h : Flush r) :
    atLineEnd? ('\n' :: r) = some r := by
  have hne : ('\n' :: r).isEmpty = false := rfl
  rw [atLineEnd?, hne, atGap?_newline]
  exact congrArg some h.skipGap

/-! ## The text of a line -/

/-- The rest of a line is read up to its line feed. -/
theorem takes_restOfLine {s : List Char} (hs : Settled s) (hne : s ≠ [])
    (r : List Char) : Takes restOfLine (s ++ '\n' :: r) s ('\n' :: r) := by
  have hspan := spanLine_line hs.no_feed hs.no_return r
  constructor <;> simp [restOfLine, hspan, hne, Trace.none]

/-- There is no rest of a line in front of a line feed. -/
theorem declines_restOfLine (r : List Char) :
    Declines restOfLine ('\n' :: r) := by
  have hspan : spanLine ('\n' :: r) = ([], '\n' :: r) :=
    spanLine_line (s := []) (by simp) (by simp) r
  constructor <;> simp [restOfLine, hspan, Trace.none]

/-- There is none at the end of the text. -/
theorem declines_restOfLine_nil : Declines restOfLine [] :=
  ⟨rfl, rfl⟩

/-- The text of a line is read as it is. -/
theorem takes_lineText {s : List Char} (hs : Settled s) (hne : s ≠ [])
    (r : List Char) :
    Takes lineText (s ++ '\n' :: r) (String.ofList s) ('\n' :: r) := by
  have hgive := takes_give (String.ofList (trimEnd s)) ('\n' :: r)
  rw [trimEnd_of_last hs.last] at hgive
  exact (takes_restOfLine hs hne r).bind (by rwa [trimEnd_of_last hs.last])

/-! ## Which word is found -/

/-- The text starts with none of these words. -/
def NoWord (words : List String) (s : List Char) : Prop :=
  ∀ w ∈ words, ¬ w.toList <+: s

/-- Of these words, `w` is the first that the text starts with. -/
def Fits (words : List String) (s : List Char) (w : String) : Prop :=
  (words.find? fun v => v.toList.isPrefixOf s) = some w

section Words

variable {words : List String} {s : List Char} {w : String} {c : Char}

/-- Where no word fits, none is found. -/
theorem find?_eq_none_of_noWord (h : NoWord words s) :
    (words.find? fun v => v.toList.isPrefixOf s) = none := by
  refine List.find?_eq_none.mpr fun v hv hp => ?_
  exact h v hv (List.isPrefixOf_iff_prefix.mp hp)

/-- A word that fits is one of the words. -/
theorem Fits.mem (h : Fits words s w) : w ∈ words :=
  List.mem_of_find?_eq_some h

/-- The text starts with it. -/
theorem Fits.starts (h : Fits words s w) : w.toList <+: s := by
  have hfound : w.toList.isPrefixOf s = true := by
    simpa using List.find?_some h
  exact List.isPrefixOf_iff_prefix.mp hfound

/-- The first word of all is found where it stands alone. -/
theorem fits_head (h : words.head? = some w) : Fits words w.toList w := by
  obtain ⟨later, rfl⟩ := List.head?_eq_some_iff.mp h
  simp [Fits]

/-- A word is found or there is none. -/
theorem noWord_or_fits (words : List String) (s : List Char) :
    NoWord words s ∨ ∃ w, Fits words s w := by
  cases hfind : words.find? fun v => v.toList.isPrefixOf s with
  | none =>
      refine Or.inl fun v hv hp => ?_
      exact List.find?_eq_none.mp hfind v hv
        (List.isPrefixOf_iff_prefix.mpr hp)
  | some w => exact Or.inr ⟨w, hfind⟩

/-- Of two lists of words a word of the first one is preferred. -/
theorem fits_append {xs ys : List String} :
    Fits (xs ++ ys) s w ↔ Fits xs s w ∨ NoWord xs s ∧ Fits ys s w := by
  rcases noWord_or_fits xs s with hno | ⟨v, hv⟩
  · have hnone := find?_eq_none_of_noWord hno
    simp [Fits, hnone, hno]
  · have hnot : ¬ NoWord xs s := fun hno => hno v hv.mem hv.starts
    rw [Fits] at hv
    simp [Fits, hv, hnot]

/-- No word of two lists fits if none of either does. -/
theorem noWord_append {xs ys : List String} :
    NoWord (xs ++ ys) s ↔ NoWord xs s ∧ NoWord ys s :=
  List.forall_mem_append

/-- A word without a certain character does not go beyond it. -/
theorem isPrefixOf_stop {v : List Char} (hv : c ∉ v) (s u : List Char) :
    v.isPrefixOf (s ++ c :: u) = v.isPrefixOf s := by
  induction v generalizing s with
  | nil => rfl
  | cons d v ih =>
      obtain ⟨hd, hrest⟩ := List.ne_and_not_mem_of_not_mem_cons hv
      cases s with
      | nil => simp [List.isPrefixOf, Ne.symm hd]
      | cons e s => simp [List.isPrefixOf, ih hrest s]

/-- What stands behind a character that is in no word does not matter. -/
theorem fits_stop (hc : ∀ v ∈ words, c ∉ v.toList) (s u : List Char) :
    Fits words (s ++ c :: u) w ↔ Fits words s w := by
  have hfind : (words.find? fun v => v.toList.isPrefixOf (s ++ c :: u))
      = words.find? fun v => v.toList.isPrefixOf s :=
    List.find?_congr fun v hv => isPrefixOf_stop (hc v hv) s u
  rw [Fits, Fits, hfind]

/-- Words without that character fit as they fit what is in front of it. -/
theorem noWord_stop (hc : ∀ v ∈ words, c ∉ v.toList) (s u : List Char) :
    NoWord words (s ++ c :: u) ↔ NoWord words s := by
  refine forall₂_congr fun v hv => not_congr ?_
  rw [← List.isPrefixOf_iff_prefix, ← List.isPrefixOf_iff_prefix,
    isPrefixOf_stop (hc v hv)]

end Words

/-- A text that starts with another character does not start with a
word. -/
theorem not_prefix_of_head {w s : List Char} {c : Char}
    (hw : w.head? = some c) (h : ∀ d ∈ s.head?, d ≠ c) : ¬ w <+: s := by
  rintro ⟨t, rfl⟩
  refine h c ?_ rfl
  cases w with
  | nil => simp at hw
  | cons d w => simpa using hw

/-- A word is not read if the text starts with another character. -/
theorem declines_literal_of_head {w : String} {s : List Char} {c : Char}
    (hw : w.toList.head? = some c) (h : ∀ d ∈ s.head?, d ≠ c) :
    Declines (literal w) s :=
  declines_literal (not_prefix_of_head hw h)

/-! ## Keywords -/

/-- Where no word fits, none is read. -/
theorem declines_word {words : List String} {s : List Char}
    (h : NoWord words s) : Declines (word words) s := by
  constructor
  · rw [word, find?_eq_none_of_noWord h]
    rfl
  · rfl

/-- The first word that fits is taken. -/
theorem takes_word {words : List String} {w : String} {r : List Char}
    (h : Fits words (w.toList ++ r) w) :
    Takes (word words) (w.toList ++ r) w r := by
  have hdrop : (w.toList ++ r).drop w.length = r := by
    rw [← String.length_toList, List.drop_left]
  constructor
  · rw [word, h]
    simp [hdrop]
  · rfl

/-- Where no gap is in front, a keyword is read as its word. -/
theorem takes_keyword {words : List String} {s r : List Char} {w : String}
    (hflush : Flush s) (h : Takes (word words) s w r) :
    Takes (keyword words) s w r :=
  (takes_skip hflush.skipComments).bind h

/-- Where no word fits, no keyword is read. -/
theorem declines_keyword {words : List String} {s : List Char}
    (hflush : Flush s) (h : NoWord words s) : Declines (keyword words) s :=
  (takes_skip hflush.skipComments).bind_declines (declines_word h)

/-! ## Headings -/

/-- **A heading comes back whole.**  Behind the keyword and its colon the
name may be missing, and spaces in front of it do not count. -/
theorem takes_heading {words : List String} {s u name r : List Char}
    {w : String} (hflush : Flush s) (hw : Takes (word words) s w (':' :: u))
    (hu : skipSpaces u = name ++ '\n' :: r) (hname : Settled name)
    (hr : Flush r) :
    Takes (heading words) s (w, String.ofList name) r := by
  have htext : ∃ o, Takes (optional lineText) (name ++ '\n' :: r) o
      ('\n' :: r) ∧ o.getD "" = String.ofList name := by
    by_cases hne : name = []
    · subst hne
      exact ⟨none, (declines_restOfLine r).bind.optional, rfl⟩
    · exact ⟨_, (takes_lineText hname hne r).optional, rfl⟩
  obtain ⟨o, htext, ho⟩ := htext
  rw [← ho]
  exact (takes_keyword hflush hw).bind <|
    (takes_literal ":" u).bind <|
    (takes_skip hu).bind <|
    htext.bind <|
    (takes_skip (skipSpaces_newline r)).bind <|
    (takes_pass hr.atLineEnd?_newline).bind <|
    takes_give _ _

/-- Nor is a heading. -/
theorem declines_heading {words : List String} {s : List Char}
    (hflush : Flush s) (h : NoWord words s) : Declines (heading words) s :=
  (declines_keyword hflush h).bind

/-- A heading with another keyword is passed over, even where its keyword
goes on from one of the words. -/
theorem declines_heading_other {words : List String} {k : String}
    {u : List Char} (hflush : Flush (k.toList ++ ':' :: u))
    (hcolon : ∀ w ∈ words, ':' ∉ w.toList) (hk : ':' ∉ k.toList)
    (hother : k ∉ words) :
    Declines (heading words) (k.toList ++ ':' :: u) := by
  rcases noWord_or_fits words (k.toList ++ ':' :: u) with hno | ⟨w, hw⟩
  · exact declines_heading hflush hno
  · obtain ⟨t, ht⟩ := ((fits_stop hcolon _ _).mp hw).starts
    rw [← ht, List.append_assoc] at hw hflush ⊢
    refine (takes_keyword hflush (takes_word hw)).bind_declines ?_
    refine (declines_literal_of_head (c := ':') rfl ?_).bind
    cases t with
    | nil =>
        -- The whole keyword would be the word.
        have hsame : k = w := String.toList_inj.mp (by simpa using ht.symm)
        exact absurd (hsame ▸ hw.mem) hother
    | cons d t =>
        have hd : d ∈ k.toList := by
          rw [← ht]
          simp
        have hne : d ≠ ':' := fun h => hk (h ▸ hd)
        exact forall_head (P := (· ≠ ':')) hne _

end SoloScenario.Grammar
