import SoloScenario.Feature.Render
import SoloScenario.Grammar.Step
import SoloScenario.Proofs.Grammar.Lines
import SoloScenario.Proofs.Text.BlankLines

/-!
# Reading tables and doc strings back

What the written form of a table or of a doc string must not contain, so
that it is read back as it is:

* `CellText`, `takes_table` — a cell is trimmed and holds neither a bar
  nor a line feed, and all rows are of one width;
* `Quotable`, `takes_docString` — a doc string shows no fence of quotes and
  has no margin of its own; `DocText` is a simpler condition for that.
-/

namespace SoloScenario.Grammar

open Reader Text

/-! ## Tables -/

/-- The text of a cell that is read back as it is. -/
structure CellText (c : List Char) : Prop where
  trimmed : Trimmed c
  no_feed : '\n' ∉ c
  no_bar : '|' ∉ c

/-- The cells of a row, each with the bar behind it. -/
def cellsText (cells : List String) : List Char :=
  cells.flatMap fun c => c.toList ++ ['|']

/-- A row is written as a bar and its cells, each with a bar behind it. -/
theorem row_line_toList (row : Row) :
    row.line.toList = '|' :: cellsText row.cells := by
  rw [Row.line, String.toList_append, join_append_toList]
  rfl

/-- A cell goes up to the next bar. -/
theorem spanCell_cell {c : List Char} (hfeed : '\n' ∉ c) (hbar : '|' ∉ c)
    (t : List Char) : spanCell (c ++ '|' :: t) = (c, '|' :: t) := by
  induction c with
  | nil => simp [spanCell]
  | cons d c ih =>
      obtain ⟨hd, hc⟩ := List.ne_and_not_mem_of_not_mem_cons hfeed
      obtain ⟨hdbar, hcbar⟩ := List.ne_and_not_mem_of_not_mem_cons hbar
      have hnext : (c ++ '|' :: t).head? ≠ some '\n' := by
        cases c with
        | nil => simp
        | cons e c => simpa using (List.ne_of_not_mem_cons hc).symm
      rw [List.cons_append, spanCell, atBreak?_cons hd.symm hnext,
        ih hc hcbar]
      simp [hdbar.symm]

/-- The text from a cell on starts with neither space nor break. -/
theorem cell_head {c : List Char} (hc : CellText c) (t : List Char) :
    ∀ d ∈ (c ++ '|' :: t).head?,
      isSpace d = false ∧ d ≠ '\n' ∧ d ≠ '\r' := by
  intro d hd
  cases c with
  | nil =>
      obtain rfl : '|' = d := by simpa using hd
      decide
  | cons e c =>
      obtain rfl : e = d := by simpa using hd
      have hblank := hc.trimmed.head e rfl
      exact ⟨isSpace_of_not_blank hblank, ne_of_not_blank hblank (by decide),
        ne_of_not_blank hblank (by decide)⟩

/-- A cell's text is read between its bars. -/
theorem takes_cell {c : List Char} (hc : CellText c) (t : List Char) :
    Takes cell ('|' :: (c ++ '|' :: t)) (String.ofList c) ('|' :: t) := by
  have hhead := cell_head hc t
  have hspaces : skipSpaces (c ++ '|' :: t) = c ++ '|' :: t :=
    skipSpaces_of_head fun d hd => (hhead d hd).1
  have hbreak : atBreak? (c ++ '|' :: t) = none := by
    cases hs : c ++ '|' :: t with
    | nil => rfl
    | cons d s =>
        have hd := hhead d (by rw [hs]; rfl)
        exact atBreak?_of_ne s hd.2.1 hd.2.2
  have htext : Takes cellText (c ++ '|' :: t) (String.ofList c)
      ('|' :: t) := by
    constructor <;>
      simp [cellText, spanCell_cell hc.no_feed hc.no_bar, hc.trimmed.trim,
        Trace.none]
  exact (takes_literal "|" _).bind <|
    (takes_skip hspaces).bind <|
    (takes_unlessAt (by simp [hbreak])).bind htext

/-- The bar at the end of a row starts no cell. -/
theorem declines_cell_last (r : List Char) :
    Declines cell ('|' :: '\n' :: r) :=
  (takes_literal "|" ('\n' :: r)).bind_declines <|
    (takes_skip (skipSpaces_newline r)).bind_declines <|
    (declines_unlessAt (by simp [atBreak?])).bind

/-- A bar is no space. -/
theorem skipSpaces_bar (t : List Char) : skipSpaces ('|' :: t) = '|' :: t :=
  skipSpaces_of_head (forall_head (by decide) t)

/-- The cells of a row are read one after the other. -/
theorem takes_cells {cells : List String}
    (hcells : ∀ c ∈ cells, CellText c.toList) (r : List Char) :
    Takes (many (do skip skipSpaces; cell))
      ('|' :: (cellsText cells ++ '\n' :: r)) cells ('|' :: '\n' :: r) := by
  have htext : ∀ c cells, cellsText (c :: cells) ++ '\n' :: r
      = c.toList ++ '|' :: (cellsText cells ++ '\n' :: r) := by
    simp [cellsText]
  have hend : Declines (do skip skipSpaces; cell) ('|' :: '\n' :: r) :=
    (takes_skip (skipSpaces_bar _)).bind_declines (declines_cell_last r)
  have hall := takes_many (g := id)
    (w := fun cells => '|' :: (cellsText cells ++ '\n' :: r)) hend
    (fun c cells h => ?_) (fun c cells => ?_) hcells
  · rwa [List.map_id] at hall
  · have hc := takes_cell (h c List.mem_cons_self)
      (cellsText cells ++ '\n' :: r)
    rw [String.ofList_toList] at hc
    rw [htext]
    exact (takes_skip (skipSpaces_bar _)).bind hc
  · rw [htext]
    simp only [List.length_cons, List.length_append]
    omega

/-- A row is read with its line feed. -/
theorem takes_row {cells : List String}
    (hcells : ∀ c ∈ cells, CellText c.toList) {r : List Char}
    (hr : Flush r) :
    Takes row ('|' :: (cellsText cells ++ '\n' :: r)) cells r := by
  have hchain : Takes (chain skipSpaces cell cell)
      ('|' :: (cellsText cells ++ '\n' :: r)) cells ('|' :: '\n' :: r) := by
    cases cells with
    | nil => exact (declines_cell_last r).chain
    | cons c cells =>
        have hc := takes_cell (hcells c List.mem_cons_self)
          (cellsText cells ++ '\n' :: r)
        rw [String.ofList_toList] at hc
        have htext : cellsText (c :: cells) ++ '\n' :: r
            = c.toList ++ '|' :: (cellsText cells ++ '\n' :: r) := by
          simp [cellsText]
        rw [htext]
        exact hc.chain
          (takes_cells (fun d hd => hcells d (List.mem_cons_of_mem _ hd)) r)
  exact hchain.bind <|
    (takes_skip (skipSpaces_bar _)).bind <|
    (takes_literal "|" ('\n' :: r)).bind <|
    (takes_skip (skipSpaces_newline r)).bind <|
    (takes_pass hr.atLineEnd?_newline).bind (takes_give cells r)

/-- No row starts without a bar. -/
theorem declines_row {r : List Char} (hr : Flush r)
    (hbar : ∀ c ∈ r.head?, c ≠ '|') : Declines row r := by
  have hcell : Declines cell r :=
    (declines_literal_of_head rfl hbar).bind
  exact hcell.chain.bind_declines <|
    (takes_skip hr.skipSpaces).bind_declines <|
    (declines_literal_of_head rfl hbar).bind

/-- The first of several rows is written first. -/
theorem textOf_rows (row : Row) (rows : List Row) (r : List Char) :
    textOf ((row :: rows).map Row.line) ++ r
      = '|' :: (cellsText row.cells
        ++ '\n' :: (textOf (rows.map Row.line) ++ r)) := by
  simp [row_line_toList]

/-- Rows start with a bar, so no gap stands in front of them. -/
theorem flush_rows (rows : List Row) {r : List Char} (hr : Flush r) :
    Flush (textOf (rows.map Row.line) ++ r) := by
  cases rows with
  | nil => exact hr
  | cons row rows =>
      rw [textOf_rows]
      exact flush_cons (by decide) _

/-- Rows are read up to a text that starts with none. -/
theorem takes_rows {rows : List Row}
    (hcells : ∀ row ∈ rows, ∀ c ∈ row.cells, CellText c.toList)
    {r : List Char} (hr : Flush r) (hbar : ∀ c ∈ r.head?, c ≠ '|') :
    Takes (many (do skip skipSpaces; row))
      (textOf (rows.map Row.line) ++ r) (rows.map Row.cells) r := by
  have hend : Declines (do skip skipSpaces; row) r :=
    (takes_skip hr.skipSpaces).bind_declines (declines_row hr hbar)
  refine takes_many (w := fun rows => textOf (rows.map Row.line) ++ r) hend
    (fun first rows h => ?_) (fun first rows => ?_) hcells
  · have hfirst := takes_row (h first List.mem_cons_self)
      (flush_rows rows hr)
    rw [textOf_rows]
    exact (takes_skip (skipSpaces_bar _)).bind hfirst
  · rw [textOf_rows]
    simp only [List.length_cons, List.length_append]
    omega

/-- Rows of one width are a table. -/
theorem level?_of_width {rows : List Row} {width : Nat}
    (h : ∀ row ∈ rows, row.cells.length = width) :
    level? (rows.map Row.cells) = some rows := by
  cases rows with
  | nil => rfl
  | cons first later =>
      have hfirst := h first List.mem_cons_self
      have hany : ((later.map Row.cells).any fun cells =>
          cells.length < first.cells.length) = false := by
        refine List.any_eq_false.mpr fun cells hcells => ?_
        obtain ⟨row, hrow, rfl⟩ := List.mem_map.mp hcells
        have := h row (List.mem_cons_of_mem _ hrow)
        simp only [decide_eq_true_eq]
        omega
      have hcut : ∀ row ∈ first :: later,
          (⟨row.cells.take first.cells.length⟩ : Row) = row := by
        intro row hrow
        have hle := Nat.le_of_eq ((h row hrow).trans hfirst.symm)
        rw [List.take_of_length_le hle]
      rw [List.map_cons, level?, hany]
      simp only [Bool.false_eq_true, if_false, ← List.map_cons,
        List.map_map, Option.some.injEq]
      exact (List.map_congr_left hcut).trans (List.map_id _)

/-- **A table comes back whole.** -/
theorem takes_table {rows : List Row} {width : Nat} (hne : rows ≠ [])
    (hwidth : ∀ row ∈ rows, row.cells.length = width)
    (hcells : ∀ row ∈ rows, ∀ c ∈ row.cells, CellText c.toList)
    {r : List Char} (hr : Flush r) (hbar : ∀ c ∈ r.head?, c ≠ '|') :
    Takes table (textOf (rows.map Row.line) ++ r) rows r := by
  cases rows with
  | nil => exact absurd rfl hne
  | cons first later =>
      have hfirst := takes_row (hcells first List.mem_cons_self)
        (flush_rows later hr)
      have hlater := takes_rows
        (fun row hrow => hcells row (List.mem_cons_of_mem _ hrow)) hr hbar
      have hlevel := level?_of_width hwidth
      rw [textOf_rows]
      refine (takes_skip (skipSpaces_bar _)).bind <|
        hfirst.bind <| hlater.bind ?_
      rw [List.map_cons] at hlevel
      rw [hlevel]
      exact takes_give _ _

/-- No table starts without a bar. -/
theorem declines_table {r : List Char} (hr : Flush r)
    (hbar : ∀ c ∈ r.head?, c ≠ '|') : Declines table r :=
  (takes_skip hr.skipSpaces).bind_declines (declines_row hr hbar).bind

/-! ## Doc strings -/

/-- The content of a doc string that is read back as it is, said without
the details of reading.  Without a margin means that no blank stands in
front of every line that is not blank, unless there is no such line at
all. -/
structure DocText (content : List Char) : Prop where
  no_return : '\r' ∉ content
  no_fence : ¬ ['"', '"', '"'] <:+: content
  blank_lines : ∀ l ∈ pieces '\n' content, isAllBlank l = true → l = []
  no_margin : ∀ c, isBlank c = true →
    (∀ l ∈ pieces '\n' content, isAllBlank l = false → l.head? = some c) →
    ∀ l ∈ pieces '\n' content, isAllBlank l = true

/-- What a doc string may not hold in order to be written between quotes:
no carriage return ends a line of it, no fence of quotes is seen in it
(behind a `#` none is), and it has no margin. -/
structure Quotable (content : List Char) : Prop where
  no_return : ¬ ['\r', '\n'] <:+: content ++ ['\n']
  no_fence : spanBody '"' false (content ++ ['\n']) = (content ++ ['\n'], [])
  no_margin : ∀ c, isBlank c = true →
    (∀ l ∈ pieces '\n' content, isAllBlank l = false → l.head? = some c) →
    ∀ l ∈ pieces '\n' content, isAllBlank l = true

/-- The content of a doc string that is read back as it is. -/
structure QuotedText (content : List Char) : Prop
    extends Quotable content where
  blank_lines : NoBlankLine content

/-- In front of a fence that starts a line, a body goes on up to the
fence. -/
theorem spanBody_fence {content : List Char} {inComment : Bool}
    (h : spanBody '"' inComment (content ++ ['\n']) = (content ++ ['\n'], []))
    (r : List Char) :
    spanBody '"' inComment (content ++ '\n' :: '"' :: '"' :: '"' :: r)
      = (content ++ ['\n'], '"' :: '"' :: '"' :: r) := by
  induction content generalizing inComment with
  | nil => simp [spanBody]
  | cons c content ih =>
      rw [List.cons_append, spanBody] at h
      have hhere : (!inComment && ['"', '"', '"'].isPrefixOf
          (c :: (content ++ ['\n']))) = false := by
        by_contra hp
        rw [if_pos (by simpa using hp)] at h
        simp at h
      have hfence : ['"', '"', '"'].isPrefixOf
          (c :: (content ++ '\n' :: '"' :: '"' :: '"' :: r))
          = ['"', '"', '"'].isPrefixOf (c :: (content ++ ['\n'])) := by
        -- The line feed keeps a fence from starting in the content.
        rw [← List.cons_append, ← List.cons_append,
          isPrefixOf_stop (by decide), isPrefixOf_stop (by decide)]
      rw [if_neg (Bool.eq_false_iff.mp hhere)] at h
      have hrest := ih (Prod.ext (List.cons.inj (Prod.mk.inj h).1).2
        (Prod.mk.inj h).2)
      rw [List.cons_append, spanBody, hfence,
        if_neg (Bool.eq_false_iff.mp hhere), hrest]
      rfl

/-- Where three quotes stand nowhere, no fence is seen. -/
theorem spanBody_of_no_fence {body : List Char}
    (h : ¬ ['"', '"', '"'] <:+: body) (inComment : Bool) :
    spanBody '"' inComment body = (body, []) := by
  induction body generalizing inComment with
  | nil => rfl
  | cons c body ih =>
      have hrest := ih fun hfence =>
        h (hfence.trans (List.suffix_cons c _).isInfix)
      have hhere : ['"', '"', '"'].isPrefixOf (c :: body) = false :=
        Bool.eq_false_iff.mpr fun hp =>
          h (List.isPrefixOf_iff_prefix.mp hp).isInfix
      rw [spanBody, hhere, hrest]
      simp

/-- The lines of a text with a break at its end are what its line feeds cut it
into. -/
theorem lines_newline {s : List Char} (h : ¬ ['\r', '\n'] <:+: s ++ ['\n']) :
    lines (s ++ ['\n']) = pieces '\n' s := by
  induction s with
  | nil => rfl
  | cons c s ih =>
      have hrest := ih fun hr =>
        h (hr.trans (List.suffix_cons c _).isInfix)
      obtain ⟨p, ps, hp⟩ := List.exists_cons_of_ne_nil (pieces_ne_nil '\n' s)
      rw [hp] at hrest
      by_cases hn : c = '\n'
      · subst hn
        rw [List.cons_append, lines, hrest, pieces, hp]
        rfl
      · have hr : ∀ t, c = '\r' → s ++ ['\n'] = '\n' :: t → False := by
          rintro t rfl ht
          refine h ⟨[], t, ?_⟩
          simp [ht]
        rw [List.cons_append, lines.eq_4 c _ (fun h => hn h) hr, hrest,
          pieces, hp]
        simp [hn]

/-- What is left of a margin after one more line starts the margin and,
unless it is empty, the line. -/
theorem narrow_head {shared line w : List Char} {c : Char}
    (h : narrow shared line = c :: w) :
    shared.head? = some c ∧ (line ≠ [] → line.head? = some c) := by
  unfold narrow at h
  rcases shared with _ | ⟨d, shared⟩
  · cases line <;> simp [fork?] at h
  · rcases line with _ | ⟨e, line⟩
    · simp only [fork?, Option.getD_none, List.cons.injEq] at h
      simp [h.1]
    · by_cases he : e = d
      · subst he
        cases hf : fork? line shared <;> simp [fork?, hf] at h <;>
          simp [h.1]
      · simp [fork?, he] at h

/-- What all lines share starts each of them that is not empty. -/
theorem foldl_narrow_head {ls : List (List Char)} {shared w : List Char}
    {c : Char} (h : ls.foldl narrow shared = c :: w) :
    shared.head? = some c ∧ ∀ l ∈ ls, l ≠ [] → l.head? = some c := by
  induction ls generalizing shared with
  | nil =>
      have hshared : shared = c :: w := h
      simp [hshared]
  | cons l ls ih =>
      obtain ⟨hnext, hls⟩ := ih h
      obtain ⟨w', hw'⟩ : ∃ w', narrow shared l = c :: w' := by
        cases hn : narrow shared l with
        | nil => simp [hn] at hnext
        | cons d w' =>
            rw [hn] at hnext
            obtain rfl : d = c := by simpa using hnext
            exact ⟨w', rfl⟩
      obtain ⟨hshared, hl⟩ := narrow_head hw'
      refine ⟨hshared, fun k hk hne => ?_⟩
      rcases List.mem_cons.mp hk with rfl | hk
      · exact hl hne
      · exact hls k hk hne

/-- A margin starts every line that is not blank. -/
theorem margin_head {ls : List (List Char)} {w : List Char} {c : Char}
    (h : margin ls = c :: w) :
    isBlank c = true ∧ (∃ l ∈ ls, isAllBlank l = false)
      ∧ ∀ l ∈ ls, isAllBlank l = false → l.head? = some c := by
  induction ls with
  | nil => simp [margin] at h
  | cons l ls ih =>
      rw [margin] at h
      by_cases hl : isAllBlank l = true
      · rw [if_pos hl] at h
        obtain ⟨hc, ⟨k, hk, hblank⟩, hall⟩ := ih h
        refine ⟨hc, ⟨k, List.mem_cons_of_mem _ hk, hblank⟩, ?_⟩
        intro m hm hmb
        rcases List.mem_cons.mp hm with rfl | hm
        · simp [hl] at hmb
        · exact hall m hm hmb
      · rw [if_neg hl] at h
        obtain ⟨hshared, hls⟩ := foldl_narrow_head h
        rw [List.head?_takeWhile, Option.filter_eq_some_iff] at hshared
        refine ⟨hshared.2, ⟨l, List.mem_cons_self, by simpa using hl⟩, ?_⟩
        intro m hm hmb
        rcases List.mem_cons.mp hm with rfl | hm
        · exact hshared.1
        · refine hls m hm ?_
          rintro rfl
          simp [isAllBlank] at hmb

/-- Quotable content has no margin. -/
theorem Quotable.margin_eq_nil {content : List Char}
    (h : Quotable content) : margin (pieces '\n' content) = [] := by
  cases hm : margin (pieces '\n' content) with
  | nil => rfl
  | cons c w =>
      obtain ⟨hc, ⟨l, hl, hblank⟩, hall⟩ := margin_head hm
      have := h.no_margin c hc hall l hl
      simp [hblank] at this

/-- Nothing is taken off a doc string that has no margin. -/
theorem QuotedText.dedent {content : List Char} (h : QuotedText content) :
    dedent ('\n' :: (content ++ ['\n'])) = '\n' :: (content ++ ['\n']) := by
  have hlines : lines ('\n' :: (content ++ ['\n']))
      = [] :: pieces '\n' content := by
    rw [lines, lines_newline h.no_return]
  have hmargin : margin ([] :: pieces '\n' content) = [] := by
    have hnil : isAllBlank [] = true := rfl
    rw [margin, if_pos hnil, h.margin_eq_nil]
  have houtdent : ∀ l ∈ [] :: pieces '\n' content, outdent [] l = l := by
    intro l hl
    by_cases hblank : isAllBlank l = true
    · rcases List.mem_cons.mp hl with rfl | hl
      · rfl
      · rw [h.blank_lines l hl hblank]
        rfl
    · simp [outdent, hblank]
  have hends : endsInBreak ('\n' :: (content ++ ['\n'])) = true := by
    simp [endsInBreak, List.getLast?_cons]
  have hjoin : ['\n'].intercalate (pieces '\n' content) = content :=
    joinPieces_pieces '\n' content
  obtain ⟨p, ps, hp⟩ :=
    List.exists_cons_of_ne_nil (pieces_ne_nil '\n' content)
  rw [Text.dedent, hlines, hmargin, if_pos hends,
    List.map_congr_left houtdent]
  rw [hp] at hjoin
  simp only [List.intercalate] at hjoin ⊢
  simp [hp, hjoin]

/-- The last break is dropped if it is a line feed by itself. -/
theorem dropLastBreak_newline {s : List Char}
    (h : ¬ ['\r', '\n'] <:+: s ++ ['\n']) :
    dropLastBreak (s ++ ['\n']) = s := by
  induction s with
  | nil => rfl
  | cons c s ih =>
      have hr : c = '\r' → s ++ ['\n'] = ['\n'] → False := by
        rintro rfl hs
        refine h ⟨[], [], ?_⟩
        simp [hs]
      rw [List.cons_append, dropLastBreak.eq_4 c _ (by simp) hr,
        ih fun hr => h (hr.trans (List.suffix_cons c _).isInfix)]

/-- Content between quotes, with a line feed on either side, is the content of
the doc string. -/
theorem QuotedText.docStringContent {content : List Char}
    (h : QuotedText content) :
    docStringContent ('\n' :: (content ++ ['\n'])) = content := by
  rw [Grammar.docStringContent, h.dedent]
  exact dropLastBreak_newline h.no_return

/-- Without a carriage return the last break is a line feed by itself. -/
theorem no_return_newline {s : List Char} (h : '\r' ∉ s) :
    ¬ ['\r', '\n'] <:+: s ++ ['\n'] := by
  rintro ⟨before, behind, hr⟩
  have hmem : '\r' ∈ s ++ ['\n'] := by
    rw [← hr]
    simp
  rcases List.mem_append.mp hmem with hs | hs
  · exact h hs
  · simp at hs

/-- Text of a document can stand between quotes. -/
theorem DocText.quotedText {content : List Char} (h : DocText content) :
    QuotedText content where
  no_return := no_return_newline h.no_return
  no_fence := by
    refine spanBody_of_no_fence (fun hfence => h.no_fence ?_) false
    exact infix_of_append_newline hfence (by simp) (by decide)
  no_margin := h.no_margin
  blank_lines := h.blank_lines

/-- A doc string that is written between quotes is read up to its closing
fence. -/
theorem takes_docString_written {content : List Char}
    (h : spanBody '"' false (content ++ ['\n']) = (content ++ ['\n'], []))
    {r : List Char} (hr : Flush r) :
    Takes docString
      (textOf [docStringFence, String.ofList content, docStringFence] ++ r)
      (String.ofList (docStringContent ('\n' :: (content ++ ['\n'])))) r := by
  have hspan : spanBody '"' false ('\n' :: (content
      ++ '\n' :: (docStringFence.toList ++ '\n' :: r)))
      = ('\n' :: (content ++ ['\n']),
        docStringFence.toList ++ '\n' :: r) := by
    have hcontent := spanBody_fence h ('\n' :: r)
    have hfence : docStringFence.toList ++ '\n' :: r
        = '"' :: '"' :: '"' :: '\n' :: r := rfl
    rw [hfence, spanBody]
    simp [hcontent, List.isPrefixOf]
  have hbody : Takes (docStringBody '"') ('\n' :: (content
      ++ '\n' :: (docStringFence.toList ++ '\n' :: r)))
      ('\n' :: (content ++ ['\n']))
      (docStringFence.toList ++ '\n' :: r) := by
    constructor
    · rw [docStringBody, hspan]
    · rw [docStringBody, hspan]
      rfl
  have htext : textOf [docStringFence, String.ofList content, docStringFence]
      ++ r
      = docStringFence.toList ++ '\n' :: (content
        ++ '\n' :: (docStringFence.toList ++ '\n' :: r)) := by
    simp
  rw [htext]
  refine Takes.orElse ?_
  exact (takes_literal docStringFence _).bind <| hbody.bind <|
    (takes_literal docStringFence _).bind <|
    (takes_pass hr.atLineEnd?_newline).bind (takes_give _ r)

/-- **A doc string comes back whole.** -/
theorem takes_docString {content : String} (h : QuotedText content.toList)
    {r : List Char} (hr : Flush r) :
    Takes docString
      (textOf [docStringFence, content, docStringFence] ++ r) content r := by
  have hread := takes_docString_written h.no_fence hr
  rwa [h.docStringContent, String.ofList_toList] at hread

/-- A doc string starts with one of two characters. -/
theorem declines_docString {r : List Char}
    (h : ∀ c ∈ r.head?, c ≠ '"' ∧ c ≠ '\x60') : Declines docString r :=
  Declines.orElse_declines
    (declines_literal_of_head rfl fun c hc => (h c hc).1).bind
    (declines_literal_of_head rfl fun c hc => (h c hc).2).bind

/-! ## What stands below a step -/

/-- An argument that is read back as it is. -/
def ArgumentText : StepArgument → Prop
  | .table rows =>
    rows ≠ [] ∧ (∃ width, ∀ row ∈ rows, row.cells.length = width)
      ∧ ∀ row ∈ rows, ∀ c ∈ row.cells, CellText c.toList
  | .docString content => QuotedText content.toList

/-- The text starts a line of its own that belongs to no argument. -/
structure Apart (r : List Char) : Prop where
  flush : Flush r
  bar : ∀ c ∈ r.head?, c ≠ '|'
  fence : ∀ c ∈ r.head?, c ≠ '"' ∧ c ≠ '\x60'

/-- **An argument comes back whole**, a missing one included. -/
theorem takes_argument {argument : Option StepArgument}
    (h : ∀ a ∈ argument, ArgumentText a) {r : List Char} (hr : Apart r) :
    ∃ content mid rows,
      Takes (optional docString)
        (textOf ((argument.map StepArgument.lines).getD []) ++ r) content mid
      ∧ Takes (optional table) mid rows r
      ∧ argumentOf content rows = argument := by
  have hnone := (declines_table hr.flush hr.bar).optional
  rcases argument with _ | (rows | content)
  · exact ⟨none, r, none, (declines_docString hr.fence).optional, hnone, rfl⟩
  · obtain ⟨hne, ⟨width, hwidth⟩, hcells⟩ := h _ rfl
    refine ⟨none, _, some rows, (declines_docString ?_).optional,
      (takes_table hne hwidth hcells hr.flush hr.bar).optional, rfl⟩
    rcases rows with _ | ⟨row, rows⟩
    · exact absurd rfl hne
    · simp only [Option.map_some, Option.getD_some, StepArgument.lines,
        textOf_rows]
      exact forall_head (by decide) _
  · exact ⟨some content, r, none,
      (takes_docString (h _ rfl) hr.flush).optional, hnone, rfl⟩

/-- What stands in front of a gap stands in front of an argument as well. -/
theorem flush_argument (argument : Option StepArgument) {r : List Char}
    (hr : Flush r) :
    Flush (textOf ((argument.map StepArgument.lines).getD []) ++ r) := by
  rcases argument with _ | (rows | content)
  · exact hr
  · exact flush_rows rows hr
  · exact flush_cons (by decide) _

end SoloScenario.Grammar
