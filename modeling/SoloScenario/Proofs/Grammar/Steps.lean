import SoloScenario.Proofs.Dialect.Clear
import SoloScenario.Proofs.Grammar.Arguments

/-!
# Reading steps back

A step is written as its keyword and its text on one line, with its
argument below.  Whatever follows on a line of its own that belongs to no
argument (`Apart`), the step is read back from it: keyword, separator,
text and argument.

* `Spelled`, `StepText` — the keyword is that of the word which the line
  is found to start with;
* `takes_step` — one step of a clear dialect;
* `takes_steps` — the steps of a section.
-/

namespace SoloScenario

open Grammar Text

/-! ## Lines that start with a word -/

namespace WordText

variable {w : List Char} (h : WordText w)
include h

/-- A word does not start with a blank. -/
theorem head_not_blank (t : List Char) :
    ∀ c ∈ (w ++ t).head?, isBlank c = false := by
  obtain ⟨c, hc, hstarts⟩ := h.head
  simp only [Letters.startsWord, Bool.and_eq_true, Bool.not_eq_true']
    at hstarts
  intro d hd
  rw [List.head?_append, hc] at hd
  obtain rfl : c = d := by simpa using hd
  exact hstarts.1

/-- Nor does it start with a sign that begins something else. -/
theorem head_other (t : List Char) :
    ∀ c ∈ (w ++ t).head?, c ∉ ['#', '@', '|', '"', '\x60'] := by
  obtain ⟨c, hc, hstarts⟩ := h.head
  simp only [Letters.startsWord, Bool.and_eq_true, Bool.not_eq_true',
    List.contains_eq_mem, decide_eq_false_iff_not] at hstarts
  intro d hd
  rw [List.head?_append, hc] at hd
  obtain rfl : c = d := by simpa using hd
  exact hstarts.2

/-- A word starts a line of its own, which belongs to no argument. -/
theorem apart (t : List Char) : Apart (w ++ t) := by
  have hhead : ∀ c ∈ (w ++ t).head?, c ≠ '#' ∧ c ≠ '|' ∧ c ≠ '"'
      ∧ c ≠ '\x60' := by
    intro c hc
    have hother := h.head_other t c hc
    simp only [List.mem_cons, List.not_mem_nil, or_false, not_or] at hother
    exact ⟨hother.1, hother.2.2⟩
  refine ⟨fun c hc => ?_, fun c hc => (hhead c hc).2.1,
    fun c hc => (hhead c hc).2.2⟩
  have hblank := h.head_not_blank t c hc
  exact ⟨isSpace_of_not_blank hblank, (hhead c hc).1,
    ne_of_not_blank hblank (by decide), ne_of_not_blank hblank (by decide)⟩

/-- So it does not start a tag. -/
theorem no_at (t : List Char) : ∀ c ∈ (w ++ t).head?, c ≠ '@' := by
  rintro c hc rfl
  exact h.head_other t _ hc (by decide)

/-- A word has a character. -/
theorem ne_nil : w ≠ [] := by
  rintro rfl
  obtain ⟨c, hc, -⟩ := h.head
  simp at hc

end WordText

namespace Dialect.Clear

variable {d : Dialect} (h : d.Clear)
include h

/-- The words of steps can be read. -/
theorem step {w : String} (hw : w ∈ d.stepWords) : WordText w.toList :=
  h.words w (List.mem_append_right _ hw)

/-- So can the words of headings. -/
theorem heading {words : List String} (hwords : words ⊆ d.headingWords) :
    ∀ w ∈ words, WordText w.toList :=
  fun w hw => h.words w (List.mem_append_left _ (hwords hw))

/-- So can the words for features. -/
theorem feature_words : ∀ w ∈ d.feature, WordText w.toList :=
  h.heading fun _ hw => by simp [headingWords, hw]

/-- So can the words for backgrounds. -/
theorem background_words : ∀ w ∈ d.background, WordText w.toList :=
  h.heading fun _ hw => by simp [headingWords, hw]

/-- So can the words for rules. -/
theorem rule_words : ∀ w ∈ d.rule, WordText w.toList :=
  h.heading fun _ hw => by simp [headingWords, hw]

/-- So can the words for scenarios. -/
theorem scenario_words : ∀ w ∈ d.scenarioWords, WordText w.toList :=
  h.heading fun _ hw => by simp [headingWords, hw]

/-- So can the words for examples. -/
theorem examples_words : ∀ w ∈ d.examples, WordText w.toList :=
  h.heading fun _ hw => by simp [headingWords, hw]

/-- No word of a step goes over a line. -/
theorem step_no_feed : ∀ w ∈ d.stepWords, '\n' ∉ w.toList :=
  fun _ hw => (h.step hw).no_feed

/-- No word of a step has a colon. -/
theorem step_no_colon : ∀ w ∈ d.stepWords, ':' ∉ w.toList :=
  fun _ hw => (h.step hw).no_colon

end Dialect.Clear

namespace Grammar

open Reader

/-! ## Keywords and their spelling -/

/-- The step's keyword is spelled as one that was found as the word `w`:
without the blanks at its end and with a space instead, which is missing
where the text goes on at once. -/
def Spelled (w : String) (s : Step) : Prop :=
  s.keyword.toList = trimEnd w.toList ++ [' ']
    ∨ s.keyword.toList = trimEnd w.toList
      ∧ ∀ c ∈ s.text.toList.head?, isBlank c = false

/-- A text starts with what is left when it is trimmed at its end. -/
theorem trimEnd_starts (s : List Char) : trimEnd s <+: s := by
  induction s with
  | nil => exact List.nil_prefix
  | cons c s ih =>
      rw [trimEnd]
      split
      · split
        · exact List.nil_prefix
        · exact ⟨s, rfl⟩
      · exact (List.prefix_cons_inj c).mpr ih

/-- What is trimmed stands behind it. -/
theorem trimEnd_append_drop (s : List Char) :
    trimEnd s ++ s.drop (trimEnd s).length = s :=
  List.prefix_iff_eq_append.mp (trimEnd_starts s)

/-- Trimming the end leaves the first character, if that is no blank. -/
theorem head?_trimEnd {s : List Char}
    (h : ∀ c ∈ s.head?, isBlank c = false) : (trimEnd s).head? = s.head? := by
  cases s with
  | nil => rfl
  | cons c s =>
      have hc : isBlank c = false := h c rfl
      rw [trimEnd]
      split <;> simp [hc]

/-- A word is still one without the blanks at its end. -/
theorem wordText_trimEnd {w : List Char} (h : WordText w) :
    WordText (trimEnd w) := by
  obtain ⟨c, hc, hstarts⟩ := h.head
  have hblank : ∀ c ∈ w.head?, isBlank c = false := by
    simpa using h.head_not_blank []
  have hsub := (trimEnd_starts w).subset
  exact ⟨⟨c, by rw [head?_trimEnd hblank, hc], hstarts⟩,
    fun hcolon => h.no_colon (hsub hcolon),
    fun hfeed => h.no_feed (hsub hfeed)⟩

/-- What stands behind a word shows how its keyword is spelled. -/
theorem spelledKeyword_eq {w : List Char} (h : WordText w) (c : Char)
    (u : List Char) :
    spelledKeyword w (trimEnd w ++ c :: u)
      = if isBlank c then trimEnd w ++ [' '] else trimEnd w := by
  have hstart : trimStart (trimEnd w ++ c :: u) = trimEnd w ++ c :: u :=
    trimStart_of_head ((wordText_trimEnd h).head_not_blank _)
  have hprefix : (trimEnd w).isPrefixOf (trimEnd w ++ c :: u) = true :=
    List.isPrefixOf_iff_prefix.mpr (List.prefix_append _ _)
  simp [spelledKeyword, hstart, hprefix]

/-- Spaces in front of spaces are passed with them. -/
theorem skipSpaces_append {gap : List Char}
    (h : ∀ c ∈ gap, isSpace c = true) (u : List Char) :
    skipSpaces (gap ++ u) = skipSpaces u :=
  List.dropWhile_append_of_pos h

/-! ## One step -/

/-- A step that is read back as it is, the first one of its section or a
later one. -/
structure StepText (d : Dialect) (first : Bool) (s : Step) : Prop where
  keyword : ∃ w, Fits d.stepWords (s.keyword ++ s.text).toList w
    ∧ Spelled w s ∧ (first = true → w ∈ d.openingWords)
  text : Settled s.text.toList
  ne_nil : s.text.toList ≠ []
  argument : ∀ a ∈ s.argument, ArgumentText a

/-- The text below a step's line. -/
def belowText (s : Step) (r : List Char) : List Char :=
  textOf ((s.argument.map StepArgument.lines).getD []) ++ r

/-- A step is written as its keyword, its text and what stands below. -/
theorem textOf_step (s : Step) (r : List Char) :
    textOf s.lines ++ r
      = s.keyword.toList ++ (s.text.toList ++ '\n' :: belowText s r) := by
  simp [Step.lines, belowText]

/-- Where the keyword ends, the text goes on as the spelling says. -/
theorem Spelled.behind {w : String} {s : Step} (h : Spelled w s)
    (htext : Settled s.text.toList) (hne : s.text.toList ≠ [])
    (r : List Char) :
    ∃ c v, textOf s.lines ++ r = trimEnd w.toList ++ c :: v
      ∧ skipSpaces (c :: v) = s.text.toList ++ '\n' :: belowText s r
      ∧ (if isBlank c then trimEnd w.toList ++ [' '] else trimEnd w.toList)
        = s.keyword.toList := by
  have hskip := htext.skipSpaces (belowText s r)
  rcases h with hkeyword | ⟨hkeyword, hhead⟩
  · refine ⟨' ', s.text.toList ++ '\n' :: belowText s r, ?_, ?_, ?_⟩
    · rw [textOf_step, hkeyword, List.append_assoc]
      rfl
    · exact hskip
    · rw [hkeyword]
      rfl
  · obtain ⟨c, v, hv⟩ := List.exists_cons_of_ne_nil hne
    have hc : isBlank c = false := hhead c (by rw [hv]; rfl)
    refine ⟨c, v ++ '\n' :: belowText s r, ?_, ?_, ?_⟩
    · rw [textOf_step, hkeyword, hv]
      rfl
    · rw [← List.cons_append, ← hv]
      exact hskip
    · rw [hkeyword, hc]
      rfl

/-- **A step comes back whole**, once its keyword is found at its
start. -/
theorem takes_stepWith {words : List String} {s : Step} {w : String}
    {r : List Char} (hword : WordText w.toList)
    (hgap : ∀ c ∈ w.toList.drop (trimEnd w.toList).length, isSpace c = true)
    (hspelled : Spelled w s) (htext : Settled s.text.toList)
    (hne : s.text.toList ≠ []) (hargument : ∀ a ∈ s.argument, ArgumentText a)
    (hr : Apart r) (hfits : Fits words (textOf s.lines ++ r) w) :
    Takes (stepWith words) (textOf s.lines ++ r) s r := by
  obtain ⟨content, mid, rows, hcontent, hrows, hboth⟩ :=
    takes_argument hargument hr
  have hbelow := flush_argument s.argument hr.flush
  obtain ⟨u, hu⟩ := hfits.starts
  obtain ⟨c, v, hkeyword, hbehind, hsame⟩ := hspelled.behind htext hne r
  have hspaces : skipSpaces u = s.text.toList ++ '\n' :: belowText s r := by
    have hboth : w.toList.drop (trimEnd w.toList).length ++ u = c :: v := by
      apply (List.append_right_inj (trimEnd w.toList)).mp
      rw [← List.append_assoc, trimEnd_append_drop, hu, hkeyword]
    rw [← skipSpaces_append hgap, hboth, hbehind]
  have hgive : (⟨String.ofList (spelledKeyword w.toList
      (textOf s.lines ++ r)), String.ofList s.text.toList,
      argumentOf content rows⟩ : Step) = s := by
    rw [hkeyword, spelledKeyword_eq hword, hsame, hboth,
      String.ofList_toList, String.ofList_toList]
  have hflush : Flush (textOf s.lines ++ r) := hu ▸ (hword.apart u).flush
  have hfound : Takes (word words) (textOf s.lines ++ r) w u := by
    rw [← hu] at hfits ⊢
    exact takes_word hfits
  refine (takes_ahead _).bind ?_
  rw [stepAt]
  refine (takes_keyword hflush hfound).bind <| (takes_skip hspaces).bind <|
    (takes_lineText htext hne _).bind <|
    (takes_skip (skipSpaces_newline _)).bind <|
    (takes_pass hbelow.atLineEnd?_newline).bind <|
    (takes_skip hbelow.skipSpaces).bind <|
    hcontent.bind <| hrows.bind ?_
  rw [hgive]
  exact takes_give s r

/-! ## Kinds of steps -/

section Kinds

variable {d : Dialect} {first : Bool} {t r : List Char} {s : Step}

/-- Where no word fits, no step is read. -/
theorem declines_stepWith {words : List String} (hflush : Flush t)
    (h : NoWord words t) : Declines (stepWith words) t :=
  (takes_ahead t).bind_declines (declines_keyword hflush h).bind

/-- So it is behind comments, where none stand. -/
theorem declines_given (hflush : Flush t) (h : NoWord d.givenWords t) :
    Declines (do skip skipComments; stepWith d.givenWords) t :=
  (takes_skip hflush.skipComments).bind_declines (declines_stepWith hflush h)

/-- So it is with the words that continue. -/
theorem declines_continuation {words : List String} (hflush : Flush t)
    (h : NoWord words t) : Declines (continuation first words) t :=
  (declines_stepWith hflush h).bind

/-- A word for what is given is tried first. -/
theorem takes_step_given (hflush : Flush t)
    (h : Takes (stepWith d.givenWords) t s r) : Takes (step d first) t s r :=
  ((takes_skip hflush.skipComments).bind h).orElse

/-- Then a word for what happens. -/
theorem takes_step_when (hflush : Flush t) (hgiven : NoWord d.givenWords t)
    (h : Takes (stepWith d.whenWords) t s r) : Takes (step d first) t s r :=
  (declines_given hflush hgiven).orElse h.orElse

/-- Then a word for what follows. -/
theorem takes_step_then (hflush : Flush t) (hgiven : NoWord d.givenWords t)
    (hwhen : NoWord d.whenWords t) (h : Takes (stepWith d.thenWords) t s r) :
    Takes (step d first) t s r :=
  (declines_given hflush hgiven).orElse <|
    (declines_stepWith hflush hwhen).orElse h.orElse

/-- Then, for a later step, a word that adds to the one before. -/
theorem takes_step_and (hflush : Flush t) (hgiven : NoWord d.givenWords t)
    (hwhen : NoWord d.whenWords t) (hthen : NoWord d.thenWords t)
    (h : Takes (stepWith d.andWords) t s r) : Takes (step d false) t s r :=
  (declines_given hflush hgiven).orElse <|
    (declines_stepWith hflush hwhen).orElse <|
    (declines_stepWith hflush hthen).orElse (h.bind (takes_give s r)).orElse

/-- Then one that restricts it. -/
theorem takes_step_but (hflush : Flush t) (hgiven : NoWord d.givenWords t)
    (hwhen : NoWord d.whenWords t) (hthen : NoWord d.thenWords t)
    (hand : NoWord d.andWords t) (h : Takes (stepWith d.butWords) t s r) :
    Takes (step d false) t s r :=
  (declines_given hflush hgiven).orElse <|
    (declines_stepWith hflush hwhen).orElse <|
    (declines_stepWith hflush hthen).orElse <|
    (declines_continuation hflush hand).orElse (h.bind (takes_give s r))

/-- No step starts where there is none of the words for steps. -/
theorem declines_step (hflush : Flush t) (h : NoWord d.stepWords t) :
    Declines (step d first) t := by
  simp only [Dialect.stepWords, noWord_append] at h
  obtain ⟨⟨⟨⟨hgiven, hwhen⟩, hthen⟩, hand⟩, hbut⟩ := h
  exact (declines_given hflush hgiven).orElse_declines <|
    (declines_stepWith hflush hwhen).orElse_declines <|
    (declines_stepWith hflush hthen).orElse_declines <|
    (declines_continuation hflush hand).orElse_declines
    (declines_continuation hflush hbut)

end Kinds

/-! ## Steps of a dialect -/

section Steps

variable {d : Dialect} (hd : d.Clear)
include hd

/-- The word that a step was found by starts its lines. -/
theorem StepText.fits {first : Bool} {s : Step} (h : StepText d first s)
    (r : List Char) : ∃ w, Fits d.stepWords (textOf s.lines ++ r) w
      ∧ Spelled w s ∧ (first = true → w ∈ d.openingWords) := by
  obtain ⟨w, hfits, hrest⟩ := h.keyword
  refine ⟨w, ?_, hrest⟩
  have hline : textOf s.lines ++ r
      = (s.keyword ++ s.text).toList ++ '\n' :: belowText s r := by
    rw [textOf_step, String.toList_append, List.append_assoc]
  rw [hline]
  exact (fits_stop hd.step_no_feed _ _).mpr hfits

/-- No gap and no argument stands in front of a step. -/
theorem StepText.apart {first : Bool} {s : Step} (h : StepText d first s)
    (r : List Char) : Apart (textOf s.lines ++ r) := by
  obtain ⟨w, hfits, -⟩ := h.fits hd r
  obtain ⟨u, hu⟩ := hfits.starts
  rw [← hu]
  exact (hd.step hfits.mem).apart u

/-- **A step of a clear dialect comes back whole.**  It is found in the
list of the first word that its line starts with, and in none before. -/
theorem takes_step {first : Bool} {s : Step} (h : StepText d first s)
    {r : List Char} (hr : Apart r) :
    Takes (step d first) (textOf s.lines ++ r) s r := by
  obtain ⟨w, hfits, hspelled, hopening⟩ := h.fits hd r
  have hflush := (h.apart hd r).flush
  have hwith : ∀ words, Fits words (textOf s.lines ++ r) w →
      Takes (stepWith words) (textOf s.lines ++ r) s r := fun words =>
    takes_stepWith (hd.step hfits.mem) (hd.separator w hfits.mem) hspelled
      h.text h.ne_nil h.argument hr
  have hlater : NoWord d.openingWords (textOf s.lines ++ r) →
      first = false := by
    intro hno
    cases first with
    | false => rfl
    | true => exact absurd hfits.starts (hno w (hopening rfl))
  simp only [Dialect.stepWords, fits_append, noWord_append] at hfits
  rcases hfits with (((hgiven | ⟨hgiven, hwhen⟩) | ⟨⟨hgiven, hwhen⟩, hthen⟩)
    | ⟨⟨⟨hgiven, hwhen⟩, hthen⟩, hand⟩)
    | ⟨⟨⟨⟨hgiven, hwhen⟩, hthen⟩, hand⟩, hbut⟩
  · exact takes_step_given hflush (hwith _ hgiven)
  · exact takes_step_when hflush hgiven (hwith _ hwhen)
  · exact takes_step_then hflush hgiven hwhen (hwith _ hthen)
  · obtain rfl := hlater
      (noWord_append.mpr ⟨noWord_append.mpr ⟨hgiven, hwhen⟩, hthen⟩)
    exact takes_step_and hflush hgiven hwhen hthen (hwith _ hand)
  · obtain rfl := hlater
      (noWord_append.mpr ⟨noWord_append.mpr ⟨hgiven, hwhen⟩, hthen⟩)
    exact takes_step_but hflush hgiven hwhen hthen hand (hwith _ hbut)

end Steps

/-! ## The steps of a section -/

/-- What follows the steps of a section. -/
structure BehindSteps (d : Dialect) (r : List Char) : Prop where
  apart : Apart r
  no_step : NoWord d.stepWords r

/-- The steps of a section that are read back as they are. -/
structure StepsText (d : Dialect) (ss : List Step) : Prop where
  first : ∀ s ∈ ss.head?, StepText d true s
  later : ∀ s ∈ ss.tail, StepText d false s

/-- A step takes something off the text. -/
theorem length_step_lt (s : Step) (r : List Char) :
    r.length < (textOf s.lines ++ r).length := by
  simp only [Step.lines, textOf_cons, List.length_append, List.length_cons]
  omega

section Steps

variable {d : Dialect} (hd : d.Clear) {ss : List Step} {r : List Char}
include hd

/-- Only the first step counts for what the steps start with. -/
theorem apart_steps {first : Bool} (h : ∀ s ∈ ss.head?, StepText d first s)
    (hr : Apart r) : Apart (textOf (ss.flatMap Step.lines) ++ r) := by
  cases ss with
  | nil => exact hr
  | cons s ss =>
      rw [List.flatMap_cons, textOf_append, List.append_assoc]
      exact (h s rfl).apart hd _

/-- **Later steps come back one after the other.** -/
theorem takes_laterSteps (h : ∀ s ∈ ss, StepText d false s)
    (hr : BehindSteps d r) :
    Takes (many (do skip skipSpaces; step d false))
      (textOf (ss.flatMap Step.lines) ++ r) ss r := by
  have hend : Declines (do skip skipSpaces; step d false) r :=
    (takes_skip hr.apart.flush.skipSpaces).bind_declines
      (declines_step hr.apart.flush hr.no_step)
  have hcons : ∀ s ss, textOf ((s :: ss).flatMap Step.lines) ++ r
      = textOf s.lines ++ (textOf (ss.flatMap Step.lines) ++ r) := by
    simp
  have hall := takes_many (g := id)
    (w := fun ss => textOf (ss.flatMap Step.lines) ++ r) hend
    (fun s ss h => ?_) (fun s ss => ?_) h
  · rwa [List.map_id] at hall
  · have hnext : ∀ t ∈ ss.head?, StepText d false t := fun t ht =>
      h t (List.mem_cons_of_mem _ (List.mem_of_mem_head? ht))
    have hfirst := h s List.mem_cons_self
    have hs := takes_step hd hfirst (apart_steps hd hnext hr.apart)
    rw [hcons]
    exact (takes_skip (hfirst.apart hd _).flush.skipSpaces).bind hs
  · rw [hcons]
    exact length_step_lt s _

/-- **The steps of a section come back whole.** -/
theorem takes_steps (h : StepsText d ss) (hr : BehindSteps d r) :
    Takes (steps d) (textOf (ss.flatMap Step.lines) ++ r) ss r := by
  cases ss with
  | nil => exact (declines_step hr.apart.flush hr.no_step).chain
  | cons s ss =>
      have hnext : ∀ t ∈ ss.head?, StepText d false t := fun t ht =>
        h.later t (List.mem_of_mem_head? ht)
      have hs := takes_step hd (h.first s rfl)
        (apart_steps hd hnext hr.apart)
      rw [List.flatMap_cons, textOf_append, List.append_assoc]
      exact hs.chain (takes_laterSteps hd h.later hr)

end Steps

end Grammar

end SoloScenario
