import SoloScenario.Proofs.Grammar.Yields

/-!
# What a reader leaves

Whatever a reader takes stood at the front of its text, so what it leaves
is the end of that text (`Trims`).  Readers put together from such readers
are such readers, up to headings, tables, doc strings and example
sections; only of what a lookahead looks at nothing is taken.
-/

namespace SoloScenario.Grammar

open Reader Text

/-! ## Gaps and lines -/

/-- Repeating a step that leaves an end of the text leaves one too. -/
theorem exhaust_suffix {g : List Char → Option (List Char)}
    {shorter : ∀ {s r : List Char}, g s = some r → r.length < s.length}
    (hg : ∀ {s r : List Char}, g s = some r → r <:+ s) (s : List Char) :
    exhaust g shorter s <:+ s := by
  fun_induction exhaust g shorter s with
  | case1 => exact List.suffix_rfl
  | case2 s r h ih => exact ih.trans (hg h)

/-- What can be passed again and again is passed at the end no more. -/
theorem exhaust_stops {g : List Char → Option (List Char)}
    {shorter : ∀ {s r : List Char}, g s = some r → r.length < s.length}
    (s : List Char) : g (exhaust g shorter s) = none := by
  fun_induction exhaust g shorter s with
  | case1 s h => exact h
  | case2 s r h ih => exact ih

/-- Behind a line there is an end of the text. -/
theorem spanLine_suffix (s : List Char) : (spanLine s).2 <:+ s :=
  ⟨_, spanLine_append s⟩

/-- So there is behind a break. -/
theorem atBreak?_suffix {s r : List Char} (h : atBreak? s = some r) :
    r <:+ s := by
  unfold atBreak? at h
  split at h
  · obtain rfl := Option.some.inj h
    exact List.suffix_cons _ _
  · obtain rfl := Option.some.inj h
    exact (List.suffix_cons _ _).trans (List.suffix_cons _ _)
  · simp at h

/-- So there is behind a bare break or a space. -/
theorem atBlank?_suffix {s r : List Char} (h : atBlank? s = some r) :
    r <:+ s := by
  cases s with
  | nil => simp [atBlank?] at h
  | cons c t =>
      rw [atBlank?] at h
      split at h
      · obtain rfl := Option.some.inj h
        exact List.suffix_cons c t
      · exact atBreak?_suffix h

/-- So there is behind spaces. -/
theorem skipSpaces_suffix (s : List Char) : skipSpaces s <:+ s :=
  List.dropWhile_suffix _

/-- So there is behind a comment. -/
theorem atComment?_suffix {s r : List Char} (h : atComment? s = some r) :
    r <:+ s := by
  obtain ⟨t, ht, rfl⟩ := atComment?_eq_some h
  have hbehind := skipSpaces_suffix s
  rw [ht] at hbehind
  exact (spanLine_suffix t).trans ((List.suffix_cons _ _).trans hbehind)

/-- So there is behind a break with a comment in front. -/
theorem atNewline?_suffix {s r : List Char} (h : atNewline? s = some r) :
    r <:+ s := by
  cases hc : atComment? s with
  | none =>
      rw [atNewline?, hc] at h
      exact atBreak?_suffix h
  | some t =>
      rw [atNewline?, hc] at h
      exact (atBreak?_suffix h).trans (atComment?_suffix hc)

/-- Behind a break, or behind a single space. -/
theorem atGap?_cases {s r : List Char} (h : atGap? s = some r) :
    atNewline? s = some r ∨ ∃ c, s = c :: r ∧ isSpace c = true := by
  unfold atGap? at h
  split at h
  · next t ht => exact .inl (by rw [ht, Option.some.inj h])
  · next c t ht =>
      split at h
      · next hc =>
          obtain rfl := Option.some.inj h
          exact .inr ⟨c, rfl, hc⟩
      · simp at h
  · simp at h

/-- So there is behind a break or a space. -/
theorem atGap?_suffix {s r : List Char} (h : atGap? s = some r) :
    r <:+ s := by
  rcases atGap?_cases h with hn | ⟨c, rfl, -⟩
  · exact atNewline?_suffix hn
  · exact List.suffix_cons c r

/-- So there is behind breaks. -/
theorem skipNewlines_suffix (s : List Char) : skipNewlines s <:+ s :=
  exhaust_suffix atNewline?_suffix s

/-- So there is behind a gap. -/
theorem skipGap_suffix (s : List Char) : skipGap s <:+ s :=
  exhaust_suffix atGap?_suffix s

/-- Behind the end of the text, or behind a gap of one or more. -/
theorem atLineEnd?_cases {s r : List Char} (h : atLineEnd? s = some r) :
    s = [] ∧ r = [] ∨ ∃ t, atGap? s = some t ∧ r = skipGap t := by
  unfold atLineEnd? at h
  split at h
  · next hs =>
      exact .inl ⟨List.isEmpty_iff.mp hs, (Option.some.inj h).symm⟩
  · obtain ⟨t, ht, rfl⟩ := Option.map_eq_some_iff.mp h
    exact .inr ⟨t, ht, rfl⟩

/-- So there is behind the end of a line. -/
theorem atLineEnd?_suffix {s r : List Char} (h : atLineEnd? s = some r) :
    r <:+ s := by
  rcases atLineEnd?_cases h with ⟨rfl, rfl⟩ | ⟨t, ht, rfl⟩
  · exact List.suffix_rfl
  · exact (skipGap_suffix t).trans (atGap?_suffix ht)

/-- So there is behind comments. -/
theorem skipComments_suffix (s : List Char) : skipComments s <:+ s := by
  refine exhaust_suffix (fun h => ?_) s
  obtain ⟨t, ht, hr⟩ := Option.bind_eq_some_iff.mp h
  exact (atLineEnd?_suffix hr).trans (atComment?_suffix ht)

/-- So there is behind the text of a cell. -/
theorem spanCell_suffix (s : List Char) : (spanCell s).2 <:+ s := by
  induction s with
  | nil => exact List.suffix_rfl
  | cons c s ih =>
      rw [spanCell]
      split
      · exact List.suffix_rfl
      · exact ih.trans (List.suffix_cons c s)

/-- So there is behind the body of a doc string. -/
theorem spanBody_suffix (quote : Char) (inComment : Bool) (s : List Char) :
    (spanBody quote inComment s).2 <:+ s := by
  induction s generalizing inComment with
  | nil => exact List.suffix_rfl
  | cons c s ih =>
      rw [spanBody]
      split
      · exact List.suffix_rfl
      · exact (ih _).trans (List.suffix_cons c s)

/-! ## Readers -/

/-- What the reader leaves is the end of its text. -/
def Trims {α : Type} (p : Reader α) : Prop :=
  ∀ ⦃s a r⦄, Yields p s a r → r <:+ s

section

variable {α β : Type} {p q : Reader α} {f : α → Reader β}

/-- An answer that is given leaves the text as it is. -/
theorem trims_give (a : α) : Trims (give a) := by
  intro s b r h
  obtain ⟨-, rfl⟩ := h.give
  exact List.suffix_rfl

/-- A reader that is doomed leaves nothing. -/
theorem trims_doom : Trims (doom : Reader α) := by
  intro s a r h
  simp [Yields, doom] at h

/-- Skipping leaves an end of the text, if what it skips does. -/
theorem trims_skip {g : List Char → List Char} (hg : ∀ s, g s <:+ s) :
    Trims (skip g) := by
  intro s a r h
  rw [h.skip]
  exact hg s

/-- So does passing. -/
theorem trims_pass {g : List Char → Option (List Char)}
    (hg : ∀ {s r}, g s = some r → r <:+ s) : Trims (pass g) := by
  intro s a r h
  exact hg h.pass

/-- Asking for a stop leaves the text as it is. -/
theorem trims_unlessAt (stop : List Char → Bool) : Trims (unlessAt stop) := by
  intro s a r h
  obtain rfl := h.unlessAt
  exact List.suffix_rfl

/-- A literal leaves an end of the text. -/
theorem trims_literal (w : String) : Trims (literal w) := by
  intro s a r h
  rw [h.literal]
  exact List.suffix_append _ _

/-- **Readers in a row leave an end of the text,** if each does. -/
theorem Trims.bind (hp : Trims p) (hf : ∀ a, Trims (f a)) :
    Trims (p >>= f) := by
  intro s b t h
  obtain ⟨a, r, ha, hb⟩ := h.bind
  exact (hf a hb).trans (hp ha)

/-- So do readers of which one is chosen. -/
theorem Trims.orElse (hp : Trims p) (hq : Trims q) : Trims (p <|> q) := by
  intro s a r h
  rcases h.orElse with h | h
  · exact hp h
  · exact hq h

/-- So does a reader that may be missing. -/
theorem Trims.optional (hp : Trims p) : Trims (Reader.optional p) := by
  intro s o r h
  rcases h.optional with ⟨a, rfl, ha⟩ | ⟨rfl, rfl⟩
  · exact hp ha
  · exact List.suffix_rfl

/-- So does a reader that is repeated. -/
theorem Trims.many (hp : Trims p) : Trims (Reader.many p) := by
  intro s as r h
  exact h.many_induction (R := fun s _ r => r <:+ s)
    (fun s => List.suffix_rfl) fun ha hlater => hlater.trans (hp ha)

/-- So does a chain with gaps in between. -/
theorem Trims.chain {gap : List Char → List Char} (hgap : ∀ s, gap s <:+ s)
    (hp : Trims p) (hq : Trims q) : Trims (Reader.chain gap p q) := by
  intro s as r h
  rcases h.chain_cases with ⟨-, rfl⟩ | ⟨a, later, t, -, ha, hlater⟩
  · exact List.suffix_rfl
  · have hnext : Trims (do Reader.skip gap; q) :=
      (trims_skip hgap).bind fun _ => hq
    exact (hnext.many hlater).trans (hp ha)

end

/-! ## Words, lines and tags -/

/-- A word leaves an end of the text. -/
theorem trims_word (words : List String) : Trims (word words) := by
  intro s w r h
  rw [h.word.2]
  exact List.suffix_append _ _

/-- So does a keyword. -/
theorem trims_keyword (words : List String) : Trims (keyword words) :=
  (trims_skip skipComments_suffix).bind fun _ => trims_word words

/-- So does the rest of a line. -/
theorem trims_restOfLine : Trims restOfLine := by
  intro s l r h
  rw [h.restOfLine.2.1]
  exact spanLine_suffix s

/-- So does the text of a line. -/
theorem trims_lineText : Trims lineText :=
  trims_restOfLine.bind fun _ => trims_give _

/-- So does a heading. -/
theorem trims_heading (words : List String) : Trims (heading words) := by
  refine (trims_keyword words).bind fun _ => ?_
  refine (trims_literal _).bind fun _ => ?_
  refine (trims_skip skipSpaces_suffix).bind fun _ => ?_
  refine trims_lineText.optional.bind fun _ => ?_
  refine (trims_skip skipSpaces_suffix).bind fun _ => ?_
  exact (trims_pass atLineEnd?_suffix).bind fun _ => trims_give _

/-- So does the name of a tag. -/
theorem trims_tagName : Trims tagName := by
  intro s name r h
  obtain ⟨-, -, rfl⟩ :
      s.takeWhile (fun c => !isBlank c && !c == '@') ≠ []
        ∧ String.ofList (s.takeWhile fun c => !isBlank c && !c == '@') = name
        ∧ s.dropWhile (fun c => !isBlank c && !c == '@') = r := by
    simpa [Yields, tagName] using h
  exact List.dropWhile_suffix _

/-- So do tags. -/
theorem trims_tags : Trims tags := by
  have htag : Trims tag := (trims_literal _).bind fun _ => trims_tagName
  refine (htag.chain skipGap_suffix htag).bind fun _ => ?_
  refine (trims_skip skipSpaces_suffix).bind fun _ => ?_
  exact (trims_skip skipNewlines_suffix).bind fun _ => trims_give _

/-- So does a line of a description. -/
theorem trims_descriptionLine (stops : List String) :
    Trims (descriptionLine stops) := by
  refine (trims_skip skipSpaces_suffix).bind fun _ => ?_
  refine (trims_unlessAt _).bind fun _ => ?_
  refine (trims_unlessAt _).bind fun _ => ?_
  refine (trims_skip skipSpaces_suffix).bind fun _ => ?_
  exact trims_restOfLine.bind fun _ => trims_pass atLineEnd?_suffix

/-- So does a description. -/
theorem trims_description (stops : List String) :
    Trims (description stops) := by
  have hline := trims_descriptionLine stops
  exact (hline.chain skipSpaces_suffix hline).bind fun _ =>
    trims_skip skipGap_suffix

/-- So does the line that names a language. -/
theorem trims_languageLine : Trims languageLine := by
  refine (trims_skip (exhaust_suffix atBlank?_suffix)).bind fun _ => ?_
  refine (trims_literal _).bind fun _ => ?_
  refine (trims_skip skipSpaces_suffix).bind fun _ => ?_
  refine (trims_literal _).bind fun _ => ?_
  refine (trims_skip skipSpaces_suffix).bind fun _ => ?_
  refine (trims_literal _).bind fun _ => ?_
  refine (trims_skip skipSpaces_suffix).bind fun _ => ?_
  refine trims_restOfLine.bind fun code => ?_
  refine (trims_skip skipSpaces_suffix).bind fun _ => ?_
  refine (trims_pass atNewline?_suffix).bind fun _ => ?_
  cases Dialect.find? (String.ofList code) with
  | none => exact trims_doom
  | some d => exact trims_give d

/-! ## Tables and doc strings -/

/-- So do the cells of a row. -/
theorem trims_cells : Trims (chain skipSpaces cell cell) := by
  have hcell : Trims cell := by
    refine (trims_literal _).bind fun _ => ?_
    refine (trims_skip skipSpaces_suffix).bind fun _ => ?_
    refine (trims_unlessAt _).bind fun _ => ?_
    intro s c r h
    obtain ⟨-, rfl⟩ := Prod.mk.inj (Option.some.inj h)
    exact spanCell_suffix s
  exact hcell.chain skipSpaces_suffix hcell

/-- So does a row. -/
theorem trims_row : Trims row := by
  refine trims_cells.bind fun _ => ?_
  refine (trims_skip skipSpaces_suffix).bind fun _ => ?_
  refine (trims_literal _).bind fun _ => ?_
  refine (trims_skip skipSpaces_suffix).bind fun _ => ?_
  exact (trims_pass atLineEnd?_suffix).bind fun _ => trims_give _

/-- So does a table. -/
theorem trims_table : Trims table := by
  have hlater : Trims (do skip skipSpaces; row) :=
    (trims_skip skipSpaces_suffix).bind fun _ => trims_row
  refine (trims_skip skipSpaces_suffix).bind fun _ => ?_
  refine trims_row.bind fun first => ?_
  refine hlater.many.bind fun later => ?_
  cases level? (first :: later) with
  | none => exact trims_doom
  | some rows => exact trims_give rows

/-- So does the body of a doc string. -/
theorem trims_docStringBody (quote : Char) : Trims (docStringBody quote) := by
  intro s body r h
  obtain ⟨-, rfl⟩ := Prod.mk.inj (Option.some.inj h)
  exact spanBody_suffix quote false s

/-- So does a doc string with one kind of quotes. -/
theorem trims_fenced (quote : Char) : Trims (fenced quote) := by
  refine (trims_literal _).bind fun _ => ?_
  refine (trims_docStringBody quote).bind fun _ => ?_
  refine (trims_literal _).bind fun _ => ?_
  exact (trims_pass atLineEnd?_suffix).bind fun _ => trims_give _

/-- So does a doc string. -/
theorem trims_docString : Trims docString :=
  (trims_fenced '"').orElse (trims_fenced '\x60')

/-- So does a block of examples. -/
theorem trims_examples (d : Dialect) : Trims (examples d) := by
  refine (trims_skip skipComments_suffix).bind fun _ => ?_
  refine (trims_skip skipSpaces_suffix).bind fun _ => ?_
  refine trims_tags.bind fun _ => ?_
  refine (trims_skip skipSpaces_suffix).bind fun _ => ?_
  refine (trims_heading d.examples).bind fun _ => ?_
  refine (trims_description d.examplesStops).bind fun _ => ?_
  exact trims_table.optional.bind fun _ => trims_give _

end SoloScenario.Grammar
