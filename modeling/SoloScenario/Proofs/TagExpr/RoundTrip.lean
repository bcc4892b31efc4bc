import SoloScenario.Proofs.TagExpr.Grammar
import SoloScenario.TagExpr.Printer

/-!
# Printing and reading tag expressions

The written form of an expression is read as that expression.  This needs
no look into the reader: the written form is made of the tokens of the
tree (`lexes_chars`), and these derive it (`derives_tokens`).

A tree has a written form of this kind when its tags are names
(`NamesTags`), and every tree that is read from a text is of that kind
(`Spells.namesTags`).
-/

namespace SoloScenario.TagExpr

/-- An `@` with at least one character behind it, whichever it is. -/
def IsTagName (name : String) : Prop :=
  ∃ c s, name.toList = '@' :: c :: s

/-- Every tag of the expression is a name. -/
def NamesTags : TagExpr → Prop
  | tag name => IsTagName name
  | not e => e.NamesTags
  | and l r => l.NamesTags ∧ r.NamesTags
  | or l r => l.NamesTags ∧ r.NamesTags

/-- The tokens of the written form. -/
def tokens : TagExpr → List Token
  | tag name => [.tag name]
  | not e => .operator .not :: .openParen :: (e.tokens ++ [.closeParen])
  | and l r =>
    .openParen
      :: ((l.tokens ++ .operator .and :: r.tokens) ++ [.closeParen])
  | or l r =>
    .openParen
      :: ((l.tokens ++ .operator .or :: r.tokens) ++ [.closeParen])

/-! ## From the tree to its tokens -/

/-- The written form of a tree derives the tree. -/
theorem derives_tokens (e : TagExpr) : Derives .negation e.tokens e := by
  induction e with
  | tag name => exact .onePrimary (.tag name)
  | not e ih =>
      exact .not (.onePrimary (.parens (.oneConjunction (.oneNegation ih))))
  | and l r ihl ihr =>
      have h := Derives.and (.oneNegation ihl) ihr
      exact .onePrimary (.parens (.oneConjunction h))
  | or l r ihl ihr =>
      have h := Derives.or (.oneConjunction (.oneNegation ihl))
        (.oneNegation ihr)
      exact .onePrimary (.parens h)

/-! ## From the tokens to the text -/

/-- An escaped name is a way to write the name. -/
theorem written_escape (s : List Char) : Written (escape s) s := by
  induction s with
  | nil => exact .nil
  | cons c s ih =>
      rw [escape]
      split
      · exact .escaped c ih
      · next h =>
          simp only [Bool.or_eq_true, beq_iff_eq, not_or,
            Bool.not_eq_true] at h
          exact .plain h.1 h.2 ih

/-- The word of an operator spells it. -/
theorem Operator.spelledBy_word (op : Operator) :
    op.SpelledBy op.word.toList := by
  cases op <;> exact ⟨List.all_eq_true.mp rfl, rfl⟩

/-- Behind a space every token may begin. -/
theorem separate_space (s : List Char) : Separate (' ' :: s) := by
  constructor
  · intro c hc
    obtain rfl : ' ' = c := by simpa using hc
    decide
  · intro c hc
    obtain rfl : ' ' = c := by simpa using hc
    decide

/-- An expression in parentheses is one with parentheses around its
tokens.  The space in front of the closing one keeps it out of a tag. -/
theorem lexes_parens {s : List Char} {ts : List Token} (h : Lexes s ts) :
    Lexes ("( ".toList ++ (s ++ " )".toList))
      (.openParen :: (ts ++ [.closeParen])) := by
  have hclose : Lexes " )".toList [.closeParen] :=
    .blank (by decide) (.closeParen .nil)
  have hs := h.append hclose (separate_space _)
  exact .openParen (.blank (by decide) hs)

/-- Two texts with a word and spaces in between. -/
theorem lexes_between (op : Operator) {s r : List Char} {ts us : List Token}
    (hs : Lexes s ts) (hr : Lexes r us) :
    Lexes (s ++ ' ' :: (op.word.toList ++ ' ' :: r))
      (ts ++ .operator op :: us) := by
  have hword := Lexes.word op.spelledBy_word (separate_space r).2
    (.blank (by decide) hr)
  exact hs.append (.blank (by decide) hword) (separate_space _)

/-- A negation is written with parentheses around its operand. -/
theorem chars_not (e : TagExpr) :
    chars (.not e) = "not ( ".toList ++ (e.chars ++ " )".toList) := by
  rw [chars, charsBefore, charsBefore_eq, List.append_nil]

/-- A conjunction is written with parentheses around all of it. -/
theorem chars_and (l r : TagExpr) :
    chars (.and l r) = "( ".toList
      ++ (l.chars ++ (" and ".toList ++ (r.chars ++ " )".toList))) := by
  rw [chars, charsBefore, charsBefore_eq, charsBefore_eq, List.append_nil]

/-- So is a disjunction. -/
theorem chars_or (l r : TagExpr) :
    chars (.or l r) = "( ".toList
      ++ (l.chars ++ (" or ".toList ++ (r.chars ++ " )".toList))) := by
  rw [chars, charsBefore, charsBefore_eq, charsBefore_eq, List.append_nil]

/-- **The text of a tree is made of its tokens.** -/
theorem lexes_chars {e : TagExpr} (h : e.NamesTags) :
    Lexes e.chars e.tokens := by
  induction e with
  | tag name =>
      obtain ⟨c, s, hname⟩ := h
      have hs := Lexes.tag (written_escape (c :: s)) (by simp)
        (s := []) (by simp [TagEnds]) .nil
      have hof : String.ofList ('@' :: c :: s) = name := by
        rw [← hname, String.ofList_toList]
      have hchars : chars (.tag name) = '@' :: (escape (c :: s) ++ []) := by
        simp only [chars, charsBefore, hname]
        rfl
      rw [hchars, tokens, ← hof]
      exact hs
  | not e ih =>
      have hs := lexes_parens (ih h)
      have hnot := Lexes.word (Operator.spelledBy_word .not)
        (separate_space _).2 (.blank (by decide) hs)
      rw [chars_not]
      exact hnot
  | and l r ihl ihr =>
      have hs := lexes_parens (lexes_between .and (ihl h.1) (ihr h.2))
      rw [List.append_assoc] at hs
      rw [chars_and]
      exact hs
  | or l r ihl ihr =>
      have hs := lexes_parens (lexes_between .or (ihl h.1) (ihr h.2))
      rw [List.append_assoc] at hs
      rw [chars_or]
      exact hs

/-- The written form of a tree spells it. -/
theorem spells_render {e : TagExpr} (h : e.NamesTags) : Spells e.render e := by
  refine ⟨e.tokens, ?_, .oneConjunction (.oneNegation (derives_tokens e))⟩
  rw [render, String.toList_ofList]
  exact lexes_chars h

/-! ## Trees that are read -/

/-- The tags among the tokens of a text are names. -/
theorem Lexes.isTagName {s : List Char} {ts : List Token} (h : Lexes s ts)
    {name : String} (hname : .tag name ∈ ts) : IsTagName name := by
  induction h with
  | nil => simp at hname
  | blank _ _ ih => exact ih hname
  | openParen _ ih | closeParen _ ih | word _ _ _ ih =>
      exact ih (by simpa using hname)
  | @tag w written s _ hne _ ts _ ih =>
      rcases List.mem_cons.mp hname with heq | hmem
      · obtain rfl := Token.tag.inj heq
        cases written with
        | nil => exact absurd rfl hne
        | cons c t => exact ⟨c, t, String.toList_ofList⟩
      · exact ih hmem

/-- The tags of a derived tree are among its tokens. -/
theorem Derives.namesTags {r : Rank} {ts : List Token} {e : TagExpr}
    (h : Derives r ts e) (hts : ∀ name, .tag name ∈ ts → IsTagName name) :
    e.NamesTags := by
  induction h with
  | oneConjunction _ ih | oneNegation _ ih | onePrimary _ ih => exact ih hts
  | or _ _ ihl ihr | and _ _ ihl ihr =>
      exact ⟨ihl fun name h => hts name (by simp [h]),
        ihr fun name h => hts name (by simp [h])⟩
  | not _ ih | parens _ ih => exact ih fun name h => hts name (by simp [h])
  | tag name => exact hts name (by simp)

/-- What a text spells has names for tags. -/
theorem Spells.namesTags {text : String} {e : TagExpr} (h : Spells text e) :
    e.NamesTags := by
  obtain ⟨ts, hlex, hder⟩ := h
  exact hder.namesTags fun name hname => hlex.isTagName hname

/-- Reading takes back printing. -/
theorem parse_render {e : TagExpr} (h : e.NamesTags) :
    parse e.render = .ok e :=
  (spells_render h).parse

/-- Printing keeps trees apart. -/
theorem render_injective {e f : TagExpr} (he : e.NamesTags)
    (hf : f.NamesTags) (h : e.render = f.render) : e = f := by
  have hparse := parse_render he
  rw [h, parse_render hf] at hparse
  exact (Except.ok.inj hparse).symm

/-- **Printing and reading are inverse.**  A tree with names for tags is
read back from its written form; every tree that is read is of that kind,
so its written form is read like the text it came from; different trees
have different written forms; and what is read back from a written form
holds of the same tags. -/
theorem parse_render_inverse :
    (∀ e : TagExpr, e.NamesTags → parse e.render = .ok e)
    ∧ (∀ text e, parse text = .ok e →
      e.NamesTags ∧ parse e.render = parse text)
    ∧ (∀ e f : TagExpr, e.NamesTags → f.NamesTags → e.render = f.render →
      e = f)
    ∧ (∀ (e : TagExpr) (names : List String), e.NamesTags →
      (parse e.render).map (holds names) = .ok (e.holds names)) := by
  refine ⟨fun e => parse_render, fun text e h => ?_,
    fun e f => render_injective, fun e names h => ?_⟩
  · have hnames := (spells_of_parse h).namesTags
    exact ⟨hnames, (parse_render hnames).trans h.symm⟩
  · rw [parse_render h]
    rfl

/-- A tag with a blank, a parenthesis and a backslash in its name. -/
theorem parse_render_inverse_escapes :
    NamesTags (.or (.not (.tag "@a b")) (.tag "@(\\"))
    ∧ parse (render (.or (.not (.tag "@a b")) (.tag "@(\\")))
      = .ok (.or (.not (.tag "@a b")) (.tag "@(\\")) := by
  have h : NamesTags (.or (.not (.tag "@a b")) (.tag "@(\\")) :=
    ⟨⟨'a', " b".toList, by decide⟩, ⟨'(', "\\".toList, by decide⟩⟩
  exact ⟨h, parse_render_inverse.1 _ h⟩

end SoloScenario.TagExpr
