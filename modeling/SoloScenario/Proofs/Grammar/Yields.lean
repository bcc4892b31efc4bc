import SoloScenario.Proofs.Grammar.Sections
import SoloScenario.Proofs.Text.BlankLines

/-!
# What a reader can have read

`Yields p s a r` says that the reader `p` reads `a` off the text `s` and
leaves `r`, whatever else it met.  It is the converse of `Takes`: there a
text is known and its reading is put together, here a reading is known and
is taken apart, along the way the reader is built.  What comes out is what
must be true of anything that was ever read:

* `Yields.heading` — the keyword is the first of its words that fits
  itself, and the name could stand on a line;
* `Yields.tags`, `Yields.table` — tags, and rows of one width;
* `Yields.docString` — no line of a doc string holds blanks alone.
-/

namespace SoloScenario.Grammar

open Reader Text

/-- The reader reads `a` off the text `s` and leaves `r`, dooming it or
not. -/
def Yields {α : Type} (p : Reader α) (s : List Char) (a : α)
    (r : List Char) : Prop :=
  (p s).outcome = some (a, r)

namespace Yields

variable {α β : Type} {p q : Reader α} {f : α → Reader β}
  {s r t : List Char} {a b : α} {u : Unit}

/-! ## Single readers -/

/-- An answer that is given is the one that was given. -/
theorem give (h : Yields (give a) s b r) : b = a ∧ r = s := by
  obtain ⟨rfl, rfl⟩ := Prod.mk.inj (Option.some.inj h)
  exact ⟨rfl, rfl⟩

/-- Looking ahead answers with the text itself. -/
theorem ahead {c : List Char} (h : Yields ahead s c r) : c = s ∧ r = s := by
  obtain ⟨rfl, rfl⟩ := Prod.mk.inj (Option.some.inj h)
  exact ⟨rfl, rfl⟩

/-- Skipping leaves what it leaves. -/
theorem skip {g : List Char → List Char} (h : Yields (skip g) s u r) :
    r = g s :=
  (Prod.mk.inj (Option.some.inj h)).2.symm

/-- So does passing, if there is something to pass. -/
theorem pass {g : List Char → Option (List Char)}
    (h : Yields (pass g) s u r) : g s = some r := by
  obtain ⟨t, ht, hpair⟩ := Option.map_eq_some_iff.mp h
  rw [ht, (Prod.mk.inj hpair).2]

/-- Where nothing stops, nothing is taken. -/
theorem unlessAt {stop : List Char → Bool} (h : Yields (unlessAt stop) s u r) :
    r = s := by
  by_cases hstop : stop s = true
  · simp [Yields, Reader.unlessAt, hstop] at h
  · simp only [Yields, Reader.unlessAt, hstop] at h
    exact (Prod.mk.inj (Option.some.inj h)).2.symm

/-- A literal stood at the front of the text. -/
theorem literal {word : String} (h : Yields (literal word) s u r) :
    s = word.toList ++ r := by
  by_cases hp : word.toList.isPrefixOf s = true
  · obtain ⟨t, rfl⟩ := List.isPrefixOf_iff_prefix.mp hp
    rw [Yields, (takes_literal word t).outcome] at h
    rw [(Prod.mk.inj (Option.some.inj h)).2]
  · rw [Yields, Reader.literal, if_neg hp] at h
    simp at h

/-! ## Readers put together -/

/-- Readers in a row have been run one after the other. -/
theorem bind {b : β} (h : Yields (p >>= f) s b t) :
    ∃ a r, Yields p s a r ∧ Yields (f a) r b t := by
  rw [Yields, bind_outcome] at h
  obtain ⟨⟨a, r⟩, hp, hf⟩ := Option.bind_eq_some_iff.mp h
  exact ⟨a, r, hp, hf⟩

/-- One of two readers has given the answer. -/
theorem orElse (h : Yields (p <|> q) s a r) :
    Yields p s a r ∨ Yields q s a r := by
  rw [Yields, orElse_outcome] at h
  rcases Option.or_eq_some_iff.mp h with hp | ⟨-, hq⟩
  · exact Or.inl hp
  · exact Or.inr hq

/-- What may be missing was there, or nothing was taken. -/
theorem optional {o : Option α} (h : Yields (optional p) s o r) :
    (∃ a, o = some a ∧ Yields p s a r) ∨ o = none ∧ r = s := by
  simp only [Yields, Reader.optional] at h
  cases hp : (p s).outcome with
  | none =>
      simp only [hp] at h
      obtain ⟨rfl, rfl⟩ := Prod.mk.inj (Option.some.inj h)
      exact Or.inr ⟨rfl, rfl⟩
  | some x =>
      simp only [hp] at h
      obtain ⟨rfl, rfl⟩ := Prod.mk.inj (Option.some.inj h)
      exact Or.inl ⟨x.1, rfl, hp⟩

/-- An optional part is missing only where its reader declines. -/
theorem optional_eq {o : Option α} (h : Yields (Reader.optional p) s o r) :
    o = (p s).outcome.map Prod.fst := by
  rcases hp : (p s).outcome with _ | x
  · simp only [Yields, Reader.optional, hp] at h
    exact (Prod.mk.inj (Option.some.inj h)).1.symm
  · simp only [Yields, Reader.optional, hp] at h
    exact (Prod.mk.inj (Option.some.inj h)).1.symm

/-- What holds of no repetition and is kept by one more in front holds of
all of them, with the text in front of them and the text behind. -/
theorem many_induction {R : List Char → List α → List Char → Prop}
    {as : List α} (hstop : ∀ s, R s [] s)
    (hstep : ∀ {s a t as r}, Yields p s a t → R t as r → R s (a :: as) r)
    (h : Yields (many p) s as r) : R s as r := by
  have hall : ∀ s, R s (collect p s).1 (collect p s).2.1 := by
    intro s
    fun_induction collect p s with
    | case1 s => exact hstop s
    | case2 s here a r hsome hlt later ih => exact hstep hsome ih
    | case3 s => exact hstop s
  obtain ⟨rfl, rfl⟩ := Prod.mk.inj (Option.some.inj h)
  exact hall s

/-- What is true of all that a reader reads is true of each part of a
repetition. -/
theorem many {P : α → Prop} {as : List α}
    (hp : ∀ {s a r}, Yields p s a r → P a) (h : Yields (many p) s as r) :
    ∀ a ∈ as, P a :=
  h.many_induction (R := fun _ as _ => ∀ a ∈ as, P a) (by simp)
    fun ha hlater => List.forall_mem_cons.mpr ⟨hp ha, hlater⟩

/-- A chain is empty, or its first item stands in front of the others. -/
theorem chain_cases {gap : List Char → List Char} {as : List α}
    (h : Yields (chain gap p q) s as r) :
    as = [] ∧ r = s ∨ ∃ a later t, as = a :: later ∧ Yields p s a t
      ∧ Yields (Reader.many (do Reader.skip gap; q)) t later r := by
  obtain ⟨o, r₁, hfirst, hrest⟩ := h.bind
  rcases hfirst.optional with ⟨a, rfl, ha⟩ | ⟨rfl, rfl⟩
  · obtain ⟨later, r₂, hlater, hgive⟩ := hrest.bind
    obtain ⟨rfl, rfl⟩ := hgive.give
    exact .inr ⟨a, later, r₁, rfl, ha, hlater⟩
  · exact .inl hrest.give

/-- The first part of a chain has a reader of its own. -/
theorem chain {P Q : α → Prop} {gap : List Char → List Char} {as : List α}
    (hp : ∀ {s a r}, Yields p s a r → P a)
    (hq : ∀ {s a r}, Yields q s a r → Q a)
    (h : Yields (chain gap p q) s as r) :
    (∀ a ∈ as.head?, P a) ∧ ∀ a ∈ as.tail, Q a := by
  rcases h.chain_cases with ⟨rfl, -⟩ | ⟨a, later, t, rfl, ha, hlater⟩
  · simp
  · refine ⟨?_, hlater.many fun {s b r} hb => ?_⟩
    · intro b hb
      obtain rfl := Option.some.inj hb
      exact hp ha
    · obtain ⟨-, r₃, -, hb⟩ := hb.bind
      exact hq hb

/-- A chain whose parts are all read alike. -/
theorem chain_all {P : α → Prop} {gap : List Char → List Char}
    {as : List α} (hp : ∀ {s a r}, Yields p s a r → P a)
    (h : Yields (Reader.chain gap p p) s as r) : ∀ a ∈ as, P a := by
  obtain ⟨hfirst, hlater⟩ := h.chain hp hp
  cases as with
  | nil => simp
  | cons a as =>
      exact List.forall_mem_cons.mpr ⟨hfirst a rfl, hlater⟩

end Yields

/-! ## Lines -/

/-- There is no line feed in front of a line's break. -/
theorem no_feed_spanLine (s : List Char) : '\n' ∉ (spanLine s).1 := by
  induction s with
  | nil => simp [spanLine]
  | cons c s ih =>
      rw [spanLine]
      split
      · simp
      · next hbreak =>
          have hc : '\n' ≠ c := by
            rintro rfl
            simp [atBreak?] at hbreak
          exact List.not_mem_cons_of_ne_of_not_mem hc ih

/-- A line that is not empty starts with the first character. -/
theorem head?_spanLine {s : List Char} (h : (spanLine s).1 ≠ []) :
    (spanLine s).1.head? = s.head? := by
  cases s with
  | nil => rfl
  | cons c s =>
      rw [spanLine] at h ⊢
      split at h
      · exact absurd rfl h
      · next hbreak => rw [if_neg hbreak]; rfl

/-- A text that is trimmed at its end does not end in a blank. -/
theorem trimEnd_last (s : List Char) :
    ∀ c ∈ (trimEnd s).getLast?, isBlank c = false := by
  induction s with
  | nil => simp [trimEnd]
  | cons c s ih =>
      rw [trimEnd]
      split
      · split
        · simp
        · next hc => simpa using hc
      · next hne =>
          rw [List.getLast?_cons_of_ne_nil hne]
          exact ih

/-- Where spaces are passed, none is left. -/
theorem skipSpaces_head (s : List Char) :
    ∀ c ∈ (skipSpaces s).head?, isSpace c = false := by
  intro c hc
  have hhead := List.head?_dropWhile_not isSpace s
  rw [skipSpaces] at hc
  rw [hc] at hhead
  simpa using hhead

/-- A line from its first character on, without the blanks at its end. -/
theorem settled_trimEnd {l : List Char} (hfeed : '\n' ∉ l)
    (hhead : ∀ c ∈ l.head?, isSpace c = false) : Settled (trimEnd l) := by
  refine ⟨fun hn => hfeed ((trimEnd_starts l).subset hn), fun c hc => ?_,
    trimEnd_last l⟩
  obtain ⟨t, ht⟩ := trimEnd_starts l
  refine hhead c ?_
  rw [← ht, List.head?_append, hc]
  rfl

namespace Yields

variable {words : List String} {s r : List Char}

/-- A word that is read is the first one that fits. -/
theorem word {w : String} (h : Yields (word words) s w r) :
    Fits words s w ∧ s = w.toList ++ r := by
  obtain ⟨v, hv, hpair⟩ := Option.map_eq_some_iff.mp h
  obtain ⟨rfl, rfl⟩ := Prod.mk.inj hpair
  refine ⟨hv, ?_⟩
  obtain ⟨t, rfl⟩ := Fits.starts hv
  rw [← String.length_toList, List.drop_left]

/-- So is a keyword, behind comments. -/
theorem keyword {w : String} (h : Yields (keyword words) s w r) :
    Fits words (skipComments s) w ∧ skipComments s = w.toList ++ r := by
  obtain ⟨_, t, hskip, hword⟩ := h.bind
  rw [← hskip.skip]
  exact hword.word

/-- The rest of a line goes up to its break. -/
theorem restOfLine {l : List Char} (h : Yields restOfLine s l r) :
    l = (spanLine s).1 ∧ r = (spanLine s).2 ∧ l ≠ [] := by
  by_cases hne : (spanLine s).1 = []
  · simp [Yields, Grammar.restOfLine, hne] at h
  · simp only [Yields, Grammar.restOfLine, List.isEmpty_iff, if_neg hne] at h
    obtain ⟨rfl, rfl⟩ := Prod.mk.inj (Option.some.inj h)
    exact ⟨rfl, rfl, hne⟩

/-- The rest of a line is its text and the blanks at its end. -/
theorem lineText_spanLine {text : String} (h : Yields lineText s text r) :
    (spanLine s).1 ≠ [] ∧ text.toList = trimEnd (spanLine s).1
      ∧ r = (spanLine s).2 := by
  obtain ⟨l, t, hline, hgive⟩ := h.bind
  obtain ⟨rfl, rfl⟩ := hgive.give
  obtain ⟨rfl, rfl, hne⟩ := hline.restOfLine
  exact ⟨hne, String.toList_ofList, rfl⟩

/-- The text of a line is its rest without blanks at the end. -/
theorem lineText {text : String} (h : Yields lineText s text r) :
    ∃ l, text.toList = trimEnd l ∧ '\n' ∉ l ∧ l.head? = s.head? := by
  obtain ⟨hne, htext, -⟩ := h.lineText_spanLine
  exact ⟨_, htext, no_feed_spanLine s, head?_spanLine hne⟩

/-- Behind spaces it is settled. -/
theorem settled {text : String}
    (h : Yields Grammar.lineText (skipSpaces s) text r) :
    Settled text.toList := by
  obtain ⟨l, htext, hfeed, hhead⟩ := h.lineText
  rw [htext]
  refine settled_trimEnd hfeed ?_
  rw [hhead]
  exact skipSpaces_head s

/-- A heading that was read would be read again, and its name can stand on
a line. -/
theorem heading {x : String × String}
    (hcolon : ∀ w ∈ words, ':' ∉ w.toList) (h : Yields (heading words) s x r) :
    Fits words x.1.toList x.1 ∧ Settled x.2.toList := by
  obtain ⟨w, r₁, hword, h⟩ := h.bind
  obtain ⟨_, r₂, hliteral, h⟩ := h.bind
  obtain ⟨_, r₃, hskip, h⟩ := h.bind
  obtain ⟨name, r₄, hname, h⟩ := h.bind
  obtain ⟨-, r₅, -, h⟩ := h.bind
  obtain ⟨-, r₆, -, h⟩ := h.bind
  obtain ⟨rfl, -⟩ := h.give
  obtain ⟨hfits, htext⟩ := hword.keyword
  constructor
  · rw [htext, hliteral.literal] at hfits
    exact (fits_stop hcolon _ _).mp hfits
  · have hr := hskip.skip
    subst hr
    rcases hname.optional with ⟨text, rfl, ht⟩ | ⟨rfl, -⟩
    · exact ht.settled
    · exact settled_nil

/-! ## Tags -/

/-- The name of a tag is one that can be written. -/
theorem tag {name : String} (h : Yields tag s name r) :
    TagText name.toList := by
  obtain ⟨-, t, -, h⟩ := h.bind
  have hparts : t.takeWhile (fun c => !isBlank c && !c == '@') ≠ []
      ∧ String.ofList (t.takeWhile fun c => !isBlank c && !c == '@') = name
      ∧ t.dropWhile (fun c => !isBlank c && !c == '@') = r := by
    simpa [Yields, tagName] using h
  obtain ⟨hne, rfl, -⟩ := hparts
  rw [String.toList_ofList]
  refine ⟨hne, fun c hc => ?_⟩
  have hinside := List.all_eq_true.mp List.all_takeWhile c hc
  simpa using hinside

/-- So are those of several tags. -/
theorem tags {names : List String} (h : Yields tags s names r) :
    ∀ n ∈ names, TagText n.toList := by
  obtain ⟨found, r₁, hfound, h⟩ := h.bind
  obtain ⟨-, r₂, -, h⟩ := h.bind
  obtain ⟨-, r₃, -, h⟩ := h.bind
  obtain ⟨rfl, -⟩ := h.give
  exact hfound.chain_all fun h => h.tag

end Yields

/-! ## Tables -/

/-- A text that is trimmed is trimmed. -/
theorem trimmed_trim (s : List Char) : Trimmed (trim s) := by
  refine ⟨fun c hc => ?_, trimEnd_last _⟩
  obtain ⟨t, ht⟩ := trimEnd_starts (trimStart s)
  have hstart : (trimStart s).head? = some c := by
    rw [← ht, List.head?_append]
    rw [trim, Option.mem_def] at hc
    rw [hc]
    rfl
  have hhead := List.head?_dropWhile_not isBlank s
  rw [trimStart] at hstart
  rw [hstart] at hhead
  simpa using hhead

/-- Trimming adds no character. -/
theorem mem_of_mem_trim {s : List Char} {c : Char} (h : c ∈ trim s) :
    c ∈ s :=
  (List.dropWhile_suffix _).subset ((trimEnd_starts _).subset h)

/-- No bar and no line feed is in the text of a cell. -/
theorem not_mem_spanCell (s : List Char) :
    '\n' ∉ (spanCell s).1 ∧ '|' ∉ (spanCell s).1 := by
  induction s with
  | nil => simp [spanCell]
  | cons c s ih =>
      rw [spanCell]
      split
      · simp
      · next hstop =>
          have hbar : '|' ≠ c := by
            rintro rfl
            simp at hstop
          have hfeed : '\n' ≠ c := by
            rintro rfl
            simp [atBreak?] at hstop
          exact ⟨List.not_mem_cons_of_ne_of_not_mem hfeed ih.1,
            List.not_mem_cons_of_ne_of_not_mem hbar ih.2⟩

/-- Rows that are level have the width of the first of them, and no cells
but those that were read. -/
theorem level?_eq_some {cells : List String} {later : List (List String)}
    {rows : List Row} (h : level? (cells :: later) = some rows) :
    rows ≠ [] ∧ (∀ row ∈ rows, row.cells.length = cells.length)
      ∧ ∀ row ∈ rows, ∃ read ∈ cells :: later, row.cells ⊆ read := by
  rw [level?] at h
  split at h
  · simp at h
  · next hany =>
      obtain rfl := Option.some.inj h
      refine ⟨by simp, fun row hrow => ?_, fun row hrow => ?_⟩
      · obtain ⟨read, hread, rfl⟩ := List.mem_map.mp hrow
        have hwide : cells.length ≤ read.length := by
          rcases List.mem_cons.mp hread with rfl | hread
          · exact Nat.le_refl _
          · by_contra hshort
            refine hany (List.any_eq_true.mpr ⟨read, hread, ?_⟩)
            simpa using hshort
        exact List.length_take_of_le hwide
      · obtain ⟨read, hread, rfl⟩ := List.mem_map.mp hrow
        exact ⟨read, hread, List.take_subset _ _⟩

namespace Yields

variable {s r : List Char}

/-- A cell that is read can be written. -/
theorem cell {c : String} (h : Yields cell s c r) : CellText c.toList := by
  obtain ⟨-, r₁, -, h⟩ := h.bind
  obtain ⟨-, r₂, -, h⟩ := h.bind
  obtain ⟨-, t, -, h⟩ := h.bind
  obtain ⟨rfl, -⟩ := Prod.mk.inj (Option.some.inj h)
  obtain ⟨hfeed, hbar⟩ := not_mem_spanCell t
  rw [String.toList_ofList]
  exact ⟨trimmed_trim _, fun hn => hfeed (mem_of_mem_trim hn),
    fun hb => hbar (mem_of_mem_trim hb)⟩

/-- So can a row. -/
theorem row {cells : List String} (h : Yields row s cells r) :
    ∀ c ∈ cells, CellText c.toList := by
  obtain ⟨found, r₁, hfound, h⟩ := h.bind
  obtain ⟨-, r₂, -, h⟩ := h.bind
  obtain ⟨-, r₃, -, h⟩ := h.bind
  obtain ⟨-, r₄, -, h⟩ := h.bind
  obtain ⟨-, r₅, -, h⟩ := h.bind
  obtain ⟨rfl, -⟩ := h.give
  exact hfound.chain_all fun h => h.cell

/-- A table that was read would be read again. -/
theorem table {rows : List Row} (h : Yields table s rows r) :
    ArgumentText (.table rows) := by
  obtain ⟨-, r₁, -, h⟩ := h.bind
  obtain ⟨first, r₂, hfirst, h⟩ := h.bind
  obtain ⟨later, r₃, hlater, h⟩ := h.bind
  have hcells : ∀ cells ∈ first :: later, ∀ c ∈ cells, CellText c.toList := by
    refine List.forall_mem_cons.mpr ⟨hfirst.row, ?_⟩
    refine hlater.many fun {s cells r} hcells => ?_
    obtain ⟨-, r₄, -, hrow⟩ := hcells.bind
    exact hrow.row
  cases hlevel : level? (first :: later) with
  | none =>
      rw [hlevel] at h
      simp [Yields, doom] at h
  | some levelled =>
      rw [hlevel] at h
      obtain ⟨rfl, -⟩ := h.give
      obtain ⟨hne, hwidth, hread⟩ := level?_eq_some hlevel
      refine ⟨hne, ⟨_, hwidth⟩, fun row hrow c hc => ?_⟩
      obtain ⟨cells, hmem, hsub⟩ := hread row hrow
      exact hcells cells hmem c (hsub hc)

end Yields

/-! ## Doc strings -/

/-- No line of a doc string that was read holds blanks and nothing
else. -/
theorem Yields.docString {s r : List Char} {content : String}
    (h : Yields docString s content r) : NoBlankLine content.toList := by
  have hfenced : ∀ {quote : Char}, Yields (fenced quote) s content r →
      NoBlankLine content.toList := by
    intro quote h
    obtain ⟨-, r₁, -, h⟩ := h.bind
    obtain ⟨body, r₂, -, h⟩ := h.bind
    obtain ⟨-, r₃, -, h⟩ := h.bind
    obtain ⟨-, r₄, -, h⟩ := h.bind
    obtain ⟨rfl, -⟩ := h.give
    rw [String.toList_ofList]
    exact noBlankLine_dropLastBreak
      (noBlankLine_dropFirstBreak (noBlankLine_dedent body))
  rcases h.orElse with h | h
  · exact hfenced h
  · exact hfenced h

end SoloScenario.Grammar
