import SoloScenario.Proofs.Grammar.Remainders
import SoloScenario.Proofs.Grammar.StepLines

/-!
# Where a step may start

A step is read where a line begins, up to its indentation; behind the
closing fence of a doc string a space does instead of the line's end.  What
has been passed on the way there leaves neither space nor comment to be
passed in front of the step (`Ready`), so that its word is found where the
step starts.

* `ready_of_heading`, `Ready.description`, `ready_of_row`,
  `ready_of_docString` — what ends with its line ends where a step may
  start;
* `Ready.step` — a step that is read there stands on a line, and the next
  one may start behind it.
-/

namespace SoloScenario

namespace Text

/-- A line ends at a break, unless the text ends with it. -/
theorem exists_break_of_mem {s : List Char} (h : '\n' ∈ s) :
    ∃ r, atBreak? (spanLine s).2 = some r := by
  induction s with
  | nil => simp at h
  | cons c s ih =>
      rw [spanLine]
      split
      · next hbreak => exact Option.isSome_iff_exists.mp hbreak
      · next hbreak =>
          have hc : c ≠ '\n' := by
            rintro rfl
            simp [atBreak?] at hbreak
          exact ih ((List.mem_cons.mp h).resolve_left hc.symm)

end Text

namespace Grammar

open Reader Text

/-! ## Where a step may start -/

/-- What is left of a line does not start with a space. -/
theorem spanLine_head (s : List Char) :
    ∀ c ∈ (spanLine s).2.head?, isSpace c = false := by
  induction s with
  | nil => simp [spanLine]
  | cons c s ih =>
      rw [spanLine]
      split
      · next hbreak =>
          refine forall_head ?_ s
          by_contra hspace
          have hc : c = ' ' ∨ c = '\t' := by
            simpa [isSpace, or_iff_not_imp_left] using hspace
          rcases hc with rfl | rfl <;> simp [atBreak?] at hbreak
      · exact ih

/-- What is left of the source starts behind something that may stand in
front of a step, unless nothing is left. -/
def Begun (source s : List Char) : Prop :=
  ∃ before, before ++ s = source ∧ (s = [] ∨ Begins before)

/-- A step may start here: behind the right thing, and with no gap to be
passed first. -/
structure Ready (source s : List Char) : Prop where
  begun : Begun source s
  no_gap : atGap? s = none

section

variable {source s t r : List Char}

/-- What has begun is an end of the source. -/
theorem Begun.suffix (h : Begun source s) : s <:+ source := by
  obtain ⟨before, hwhole, -⟩ := h
  exact ⟨before, hwhole⟩

/-- A space more may stand in front. -/
theorem begins_space {before : List Char} (h : Begins before) {c : Char}
    (hc : isSpace c = true) : Begins (before ++ [c]) := by
  have hall : ∀ {indent : List Char}, (∀ e ∈ indent, isSpace e = true) →
      ∀ e ∈ indent ++ [c], isSpace e = true := by
    intro indent hindent e he
    rcases List.mem_append.mp he with he | he
    · exact hindent e he
    · rwa [List.mem_singleton.mp he]
  cases h with
  | line x hindent =>
      rw [List.append_assoc, List.cons_append]
      exact .line x (hall hindent)
  | fence x hquote hne hindent =>
      rw [List.append_assoc, List.cons_append, List.cons_append,
        List.cons_append]
      exact .fence x hquote (by simp) (hall hindent)

/-- A break is passed up to its line feed. -/
theorem atNewline?_ends (h : atNewline? s = some r) :
    ∃ x, s = x ++ '\n' :: r := by
  obtain ⟨t, hts, ht⟩ : ∃ t, t <:+ s ∧ atBreak? t = some r := by
    cases hc : atComment? s with
    | none =>
        rw [atNewline?, hc] at h
        exact ⟨s, List.suffix_rfl, h⟩
    | some t =>
        rw [atNewline?, hc] at h
        exact ⟨t, atComment?_suffix hc, h⟩
  obtain ⟨x, rfl⟩ := hts
  unfold atBreak? at ht
  split at ht
  · obtain rfl := Option.some.inj ht
    exact ⟨x, rfl⟩
  · obtain rfl := Option.some.inj ht
    exact ⟨x ++ ['\r'], by simp⟩
  · simp at ht

/-- Behind a break a line begins. -/
theorem begun_of_newline (hs : s <:+ source) (h : atNewline? s = some r) :
    Begun source r := by
  obtain ⟨y, rfl⟩ := hs
  obtain ⟨x, rfl⟩ := atNewline?_ends h
  exact ⟨y ++ x ++ ['\n'], by simp, .inr (.line (y ++ x) (by simp))⟩

/-- So it does behind a gap, if one had begun before. -/
theorem Begun.gap (h : Begun source s) (hr : atGap? s = some r) :
    Begun source r := by
  rcases atGap?_cases hr with hn | ⟨c, rfl, hc⟩
  · exact begun_of_newline h.suffix hn
  · obtain ⟨before, hwhole, hnil | hbegins⟩ := h
    · simp at hnil
    · exact ⟨before ++ [c], by simpa using hwhole,
        .inr (begins_space hbegins hc)⟩

/-- Behind the whole gap a step may start. -/
theorem Begun.ready (h : Begun source s) : Ready source (skipGap s) := by
  refine ⟨?_, exhaust_stops s⟩
  unfold skipGap
  fun_induction exhaust atGap? length_atGap_lt s with
  | case1 => exact h
  | case2 s r hr ih => exact ih (h.gap hr)

/-- Where a line ends without a space, a step may follow. -/
theorem ready_of_lineEnd (hs : s <:+ source)
    (hspace : ∀ c ∈ s.head?, isSpace c = false)
    (h : atLineEnd? s = some r) : Ready source r := by
  rcases atLineEnd?_cases h with ⟨rfl, rfl⟩ | ⟨t, ht, rfl⟩
  · obtain ⟨x, hx⟩ := hs
    exact ⟨⟨x, hx, .inl rfl⟩, rfl⟩
  · rcases atGap?_cases ht with hn | ⟨c, rfl, hc⟩
    · exact (begun_of_newline hs hn).ready
    · exact absurd ((hspace c rfl).symm.trans hc) Bool.false_ne_true

/-- Behind the fence of a doc string a space is enough. -/
theorem ready_of_fence {quote : Char} (hquote : quote = '"' ∨ quote = '\x60')
    (hs : quote :: quote :: quote :: s <:+ source)
    (h : atLineEnd? s = some r) : Ready source r := by
  by_cases hspace : ∀ c ∈ s.head?, isSpace c = false
  · refine ready_of_lineEnd (List.IsSuffix.trans ?_ hs) hspace h
    exact List.suffix_append [quote, quote, quote] s
  · rcases atLineEnd?_cases h with ⟨rfl, rfl⟩ | ⟨t, ht, rfl⟩
    · simp at hspace
    · rcases atGap?_cases ht with hn | ⟨c, rfl, hc⟩
      · refine (begun_of_newline (List.IsSuffix.trans ?_ hs) hn).ready
        exact List.suffix_append [quote, quote, quote] s
      · obtain ⟨x, rfl⟩ := hs
        have hbegins : Begins (x ++ quote :: quote :: quote :: [c]) :=
          .fence x hquote (by simp) (by simpa using hc)
        exact Begun.ready ⟨_, by simp, .inr hbegins⟩

/-- What is ready is an end of the source. -/
theorem Ready.suffix (h : Ready source s) : s <:+ source :=
  h.begun.suffix

/-- No space stands there. -/
theorem Ready.skipSpaces (h : Ready source s) : skipSpaces s = s := by
  refine skipSpaces_of_head fun c hc => ?_
  obtain ⟨u, rfl⟩ := List.head?_eq_some_iff.mp hc
  by_contra hspace
  have hno := h.no_gap
  unfold atGap? at hno
  split at hno <;> simp_all

/-- A comment in front of a step would have been passed, for the source
ends in a line feed. -/
theorem Ready.no_comment (hsource : source.getLast? = some '\n')
    (h : Ready source s) : skipComments s = s := by
  refine exhaust_of_none ?_
  cases hc : atComment? s with
  | none =>
      rw [atCommentLine?, hc]
      rfl
  | some t =>
      obtain ⟨u, hu, rfl⟩ := atComment?_eq_some hc
      have hbehind := (skipSpaces_suffix s).trans h.suffix
      rw [hu] at hbehind
      obtain ⟨x, rfl⟩ := hbehind
      have hfeed : '\n' ∈ u := by
        have hlast : ('#' :: u).getLast? = some '\n' := by
          simpa [List.getLast?_append] using hsource
        simpa using List.mem_of_getLast? hlast
      obtain ⟨v, hv⟩ := exists_break_of_mem hfeed
      have hgap : atGap? s = some v := by
        unfold atGap? atNewline?
        rw [hc, Option.getD_some, hv]
      exact absurd (h.no_gap.symm.trans hgap) (by simp)

end

/-! ## Readers that end where a step may start -/

section

variable {source s r : List Char}

/-- Behind a heading a step may start. -/
theorem ready_of_heading {words : List String} {x : String × String}
    (hs : s <:+ source) (h : Yields (heading words) s x r) :
    Ready source r := by
  obtain ⟨w, r₁, hword, h⟩ := h.bind
  obtain ⟨_, r₂, hcolon, h⟩ := h.bind
  obtain ⟨_, r₃, hskip, h⟩ := h.bind
  obtain ⟨name, r₄, hname, h⟩ := h.bind
  obtain ⟨_, r₅, hskip', h⟩ := h.bind
  obtain ⟨_, r₆, hend, h⟩ := h.bind
  obtain ⟨-, rfl⟩ := h.give
  have hr₄ := (trims_lineText.optional hname).trans
    ((trims_skip skipSpaces_suffix hskip).trans
      ((trims_literal _ hcolon).trans ((trims_keyword _ hword).trans hs)))
  obtain rfl := hskip'.skip
  exact ready_of_lineEnd ((skipSpaces_suffix r₄).trans hr₄)
    (skipSpaces_head r₄) hend.pass

/-- Behind a description it still may. -/
theorem Ready.description {stops : List String} {u : Unit}
    (hs : Ready source s) (h : Yields (description stops) s u r) :
    Ready source r := by
  have hline : ∀ {s r : List Char} {u : Unit}, s <:+ source →
      Yields (descriptionLine stops) s u r → Ready source r := by
    intro s r u hs h
    obtain ⟨_, r₁, hskip, h⟩ := h.bind
    obtain ⟨_, r₂, hat, h⟩ := h.bind
    obtain ⟨_, r₃, hstop, h⟩ := h.bind
    obtain ⟨_, r₄, hskip', h⟩ := h.bind
    obtain ⟨l, r₅, hrest, hend⟩ := h.bind
    obtain rfl := hat.unlessAt
    obtain rfl := hstop.unlessAt
    have hr₄ := (trims_skip skipSpaces_suffix hskip').trans
      ((trims_skip skipSpaces_suffix hskip).trans hs)
    obtain ⟨-, rfl, -⟩ := hrest.restOfLine
    exact ready_of_lineEnd ((spanLine_suffix r₄).trans hr₄)
      (spanLine_head r₄) hend.pass
  obtain ⟨ls, r₁, hchain, hskip⟩ := h.bind
  have hr₁ : Ready source r₁ := by
    rcases hchain.chain_cases with ⟨-, rfl⟩ | ⟨a, later, t, -, ha, hlater⟩
    · exact hs
    · have ht := hline hs.suffix ha
      refine hlater.many_induction
        (R := fun s _ r => Ready source s → Ready source r)
        (fun _ hs => hs) (fun hnext hlater hs => ?_) ht
      obtain ⟨_, r₂, hskip, hnext⟩ := hnext.bind
      have hr₂ := (trims_skip skipSpaces_suffix hskip).trans hs.suffix
      exact hlater (hline hr₂ hnext)
  rw [hskip.skip, skipGap, exhaust_of_none hr₁.no_gap]
  exact hr₁

/-- Behind a row it may. -/
theorem ready_of_row {cells : List String} (hs : s <:+ source)
    (h : Yields row s cells r) : Ready source r := by
  obtain ⟨found, r₁, hfound, h⟩ := h.bind
  obtain ⟨_, r₂, hskip, h⟩ := h.bind
  obtain ⟨_, r₃, hbar, h⟩ := h.bind
  obtain ⟨_, r₄, hskip', h⟩ := h.bind
  obtain ⟨_, r₅, hend, h⟩ := h.bind
  obtain ⟨-, rfl⟩ := h.give
  have hr₃ := (trims_literal _ hbar).trans
    ((trims_skip skipSpaces_suffix hskip).trans
      ((trims_cells hfound).trans hs))
  obtain rfl := hskip'.skip
  exact ready_of_lineEnd ((skipSpaces_suffix r₃).trans hr₃)
    (skipSpaces_head r₃) hend.pass

/-- Behind a table it may. -/
theorem ready_of_table {rows : List Row} (hs : s <:+ source)
    (h : Yields table s rows r) : Ready source r := by
  obtain ⟨_, r₁, hskip, h⟩ := h.bind
  obtain ⟨first, r₂, hfirst, h⟩ := h.bind
  obtain ⟨later, r₃, hlater, h⟩ := h.bind
  have hr₁ := (trims_skip skipSpaces_suffix hskip).trans hs
  have hr₃ : Ready source r₃ := by
    refine hlater.many_induction
      (R := fun s _ r => Ready source s → Ready source r)
      (fun _ hs => hs) (fun hnext hlater hs => ?_) (ready_of_row hr₁ hfirst)
    obtain ⟨_, r₄, hskip, hrow⟩ := hnext.bind
    have hr₄ := (trims_skip skipSpaces_suffix hskip).trans hs.suffix
    exact hlater (ready_of_row hr₄ hrow)
  cases hlevel : level? (first :: later) with
  | none =>
      rw [hlevel] at h
      simp [Yields, doom] at h
  | some levelled =>
      rw [hlevel] at h
      obtain ⟨-, rfl⟩ := h.give
      exact hr₃

/-- Behind a doc string it may, even on the line of its fence. -/
theorem ready_of_docString {content : String} (hs : s <:+ source)
    (h : Yields docString s content r) : Ready source r := by
  have hfenced : ∀ {quote : Char}, quote = '"' ∨ quote = '\x60' →
      Yields (fenced quote) s content r → Ready source r := by
    intro quote hquote h
    obtain ⟨_, r₁, hopen, h⟩ := h.bind
    obtain ⟨body, r₂, hbody, h⟩ := h.bind
    obtain ⟨_, r₃, hclose, h⟩ := h.bind
    obtain ⟨_, r₄, hend, h⟩ := h.bind
    obtain ⟨-, rfl⟩ := h.give
    have hr₂ := (trims_docStringBody quote hbody).trans
      ((trims_literal _ hopen).trans hs)
    rw [hclose.literal, String.toList_ofList] at hr₂
    exact ready_of_fence hquote hr₂ hend.pass
  rcases h.orElse with h | h
  · exact hfenced (.inl rfl) h
  · exact hfenced (.inr rfl) h

/-- Behind what may be missing it may. -/
theorem Ready.optional {α : Type} {p : Reader α} {o : Option α}
    (hp : ∀ {a}, Yields p s a r → Ready source r) (hs : Ready source s)
    (h : Yields (Reader.optional p) s o r) : Ready source r := by
  rcases h.optional with ⟨a, -, ha⟩ | ⟨-, rfl⟩
  · exact hp ha
  · exact hs

end

/-! ## Steps -/

/-- The step stands on the line that starts here, and another one may start
behind it and its argument. -/
structure ReadsStep (d : Dialect) (source s : List Char) (st : Step)
    (r : List Char) : Prop where
  line : ∃ l, StandsIn d source l ∧ Shows l st ∧ l.rest = s ∧ r <:+ l.behind
  ready : Ready source r

section Steps

variable {d : Dialect} (hd : d.Clear) {source s r : List Char}
  (hsource : source.getLast? = some '\n')
include hd hsource

/-- **A step stands on a line where it is read.** -/
theorem Ready.stepWith {words : List String} (hkind : words ∈ d.stepKinds)
    {st : Step} (hs : Ready source s) (h : Yields (stepWith words) s st r) :
    ReadsStep d source s st r := by
  obtain ⟨c, r₁, hahead, h⟩ := h.bind
  obtain ⟨found, r₂, hfound, h⟩ := h.bind
  obtain ⟨_, r₃, hskip, h⟩ := h.bind
  obtain ⟨text, r₄, htext, h⟩ := h.bind
  obtain ⟨_, r₅, hskip', h⟩ := h.bind
  obtain ⟨_, r₆, hend, h⟩ := h.bind
  obtain ⟨_, r₇, hskip'', h⟩ := h.bind
  obtain ⟨content, r₈, hcontent, h⟩ := h.bind
  obtain ⟨rows, r₉, hrows, hgive⟩ := h.bind
  obtain ⟨rfl, rfl⟩ := hgive.give
  obtain ⟨rfl, rfl⟩ := hahead.ahead
  obtain ⟨hfits, hsplit⟩ := hfound.keyword
  rw [hs.no_comment hsource] at hfits hsplit
  obtain rfl := hskip.skip
  obtain ⟨hne, hline, rfl⟩ := htext.lineText_spanLine
  obtain ⟨before, hwhole, hbegins⟩ := hs.begun
  have hstarts : Begins before := by
    refine hbegins.resolve_left fun hnil => ?_
    rw [hnil] at hsplit
    have hword := hd.step (Dialect.subset_stepWords hkind hfits.mem)
    exact hword.ne_nil (List.append_eq_nil_iff.mp hsplit.symm).1
  rw [hsplit] at hfits
  have hl := standsIn_cut hd hkind hstarts hfits hne
  rw [← hsplit, hwhole] at hl
  have hrest : (StepLine.cut before found r₂).rest = r₁ := by
    rw [StepLine.rest_cut, hsplit]
  have hbelow : (StepLine.cut before found r₂).behind <:+ source := by
    refine List.IsSuffix.trans ?_ hs.suffix
    conv_rhs => rw [← hrest]
    exact List.suffix_append _ _
  obtain rfl := hskip'.skip
  have hr₆ := ready_of_lineEnd ((skipSpaces_suffix _).trans hbelow)
    (skipSpaces_head _) hend.pass
  obtain rfl := hskip''.skip
  rw [hr₆.skipSpaces] at hcontent
  have hr₈ := Ready.optional (ready_of_docString hr₆.suffix) hr₆ hcontent
  have hr₉ := Ready.optional (ready_of_table hr₈.suffix) hr₈ hrows
  have hbehind := (trims_table.optional hrows).trans
    ((trims_docString.optional hcontent).trans
      ((atLineEnd?_suffix hend.pass).trans (skipSpaces_suffix _)))
  refine ⟨⟨_, hl, ⟨?_, hline⟩, hrest, hbehind⟩, hr₉⟩
  rw [String.toList_ofList, hrest]
  rfl

/-- **Behind a step the next one may start,** and the step was read from its
line. -/
theorem Ready.step {first : Bool} {st : Step} (hs : Ready source s)
    (h : Yields (step d first) s st r) : ReadsStep d source s st r := by
  have hcontinuing : ∀ {words : List String}, words ∈ d.stepKinds →
      Yields (continuation first words) s st r →
      ReadsStep d source s st r := by
    intro words hkind h
    obtain ⟨found, r₁, hfound, h⟩ := h.bind
    cases first with
    | true => simp [Yields, decline] at h
    | false =>
        obtain ⟨rfl, rfl⟩ := h.give
        exact hs.stepWith hd hsource hkind hfound
  rcases h.orElse with h | h
  · obtain ⟨_, r₁, hskip, h⟩ := h.bind
    rw [hskip.skip, hs.no_comment hsource] at h
    exact hs.stepWith hd hsource (by simp [Dialect.stepKinds]) h
  rcases h.orElse with h | h
  · exact hs.stepWith hd hsource (by simp [Dialect.stepKinds]) h
  rcases h.orElse with h | h
  · exact hs.stepWith hd hsource (by simp [Dialect.stepKinds]) h
  rcases h.orElse with h | h
  · exact hcontinuing (by simp [Dialect.stepKinds]) h
  · exact hcontinuing (by simp [Dialect.stepKinds]) h

end Steps

end Grammar

end SoloScenario
