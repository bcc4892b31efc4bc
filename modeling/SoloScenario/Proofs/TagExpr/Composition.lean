import SoloScenario.Proofs.Feature.Groups
import SoloScenario.Proofs.TagExpr.RoundTrip

/-!
# Putting tag expressions together as text

An accepted expression may be put between parentheses without looking at
it: a parenthesis ends whatever tag or word stands in front of it, and an
escape at the end of a tag is complete, or the expression would not have
been accepted.

* `lexes_enclosed` — the tokens of a text between parentheses;
* `spells_not`, `spells_and`, `spells_or` — the three ways to put
  expressions together;
* `keeps_of_mem_split` — what a part of a feature is kept by depends on
  one list of tags, so the connectives become set operations;
* `parse_compose` — both together.
-/

namespace SoloScenario.TagExpr

/-! ## Texts -/

/-- A closing parenthesis goes on with no tag and no word. -/
theorem separate_closeParen (r : List Char) : Separate (')' :: r) := by
  constructor
  · intro c hc
    obtain rfl : ')' = c := by simpa using hc
    decide
  · intro c hc
    obtain rfl : ')' = c := by simpa using hc
    decide

/-- A text between parentheses, in front of another one. -/
theorem lexes_enclosed {s r : List Char} {ts us : List Token}
    (hs : Lexes s ts) (hr : Lexes r us) :
    Lexes ('(' :: (s ++ ')' :: r)) (.openParen :: (ts ++ .closeParen :: us)) := by
  have hclose : Lexes (')' :: r) (.closeParen :: us) := .closeParen hr
  exact .openParen (hs.append hclose (separate_closeParen r))

/-- Two texts between parentheses, with an operator in between. -/
theorem lexes_joined (op : Operator) {s r : List Char} {ts us : List Token}
    (hs : Lexes s ts) (hr : Lexes r us) :
    Lexes ('(' :: (s ++ ')' :: ' ' :: (op.word.toList
        ++ ' ' :: '(' :: (r ++ [')']))))
      (.openParen :: (ts ++ .closeParen :: .operator op :: .openParen
        :: (us ++ [.closeParen]))) := by
  have hright : Lexes (' ' :: '(' :: (r ++ [')']))
      (.openParen :: (us ++ [.closeParen])) :=
    .blank (by decide) (lexes_enclosed hr .nil)
  have hword := Lexes.word op.spelledBy_word (separate_space _).2 hright
  exact lexes_enclosed hs (.blank (by decide) hword)

/-- Between parentheses every expression is an operand. -/
theorem derives_parens {ts : List Token} {e : TagExpr}
    (h : Derives .disjunction ts e) :
    Derives .negation (.openParen :: (ts ++ [.closeParen])) e :=
  .onePrimary (.parens h)

section Compose

variable {s r : String} {e f : TagExpr}

/-- A negation may be written around an expression. -/
theorem spells_not (h : Spells s e) :
    Spells ("not (" ++ s ++ ")") (.not e) := by
  obtain ⟨ts, hlex, hder⟩ := h
  have hparens : Lexes (' ' :: '(' :: (s.toList ++ [')']))
      (.openParen :: (ts ++ [.closeParen])) :=
    .blank (by decide) (lexes_enclosed hlex .nil)
  have hnot := Lexes.word (Operator.spelledBy_word .not)
    (separate_space _).2 hparens
  refine ⟨_, ?_, .oneConjunction (.oneNegation (.not (derives_parens hder)))⟩
  have htext : ("not (" ++ s ++ ")").toList
      = Operator.not.word.toList ++ ' ' :: '(' :: (s.toList ++ [')']) := by
    simp [Operator.word]
  rw [htext]
  exact hnot

/-- Two expressions may be joined by a conjunction. -/
theorem spells_and (hs : Spells s e) (hr : Spells r f) :
    Spells ("(" ++ s ++ ") and (" ++ r ++ ")") (.and e f) := by
  obtain ⟨ts, hts, hders⟩ := hs
  obtain ⟨us, hus, hderr⟩ := hr
  have hder := Derives.and (.oneNegation (derives_parens hders))
    (derives_parens hderr)
  refine ⟨_, ?_, .oneConjunction hder⟩
  have hlex := lexes_joined .and hts hus
  simpa [Operator.word] using hlex

/-- Two expressions may be joined by a disjunction. -/
theorem spells_or (hs : Spells s e) (hr : Spells r f) :
    Spells ("(" ++ s ++ ") or (" ++ r ++ ")") (.or e f) := by
  obtain ⟨ts, hts, hders⟩ := hs
  obtain ⟨us, hus, hderr⟩ := hr
  have hder := Derives.or
    (.oneConjunction (.oneNegation (derives_parens hders)))
    (.oneNegation (derives_parens hderr))
  refine ⟨_, ?_, hder⟩
  have hlex := lexes_joined .or hts hus
  simpa [Operator.word] using hlex

end Compose

/-! ## Selections -/

/-- The features that the filter of a text keeps, or the fault of the
text. -/
def selectBy (text : String) (features : List Feature) :
    Except SyntaxError (List Feature) :=
  (TagFilter.ofText text).map fun chosen => chosen.select features

/-- No expression is blank. -/
theorem Spells.not_blank {s : String} {e : TagExpr} (h : Spells s e) :
    ¬ Text.isAllBlank s.toList = true := by
  intro hblank
  obtain ⟨ts, hlex, hder⟩ := h
  obtain rfl := hlex.unique (lexes_nil_iff.mpr hblank)
  have hmap : ([] : List (Nat × Token)).map Prod.snd = [] := rfl
  -- Without tokens the reader still wants its first operand.
  obtain ⟨level, held, hrun, -⟩ := hder.reaches hmap [] .start
  simp [pure, Except.pure] at hrun

/-- An accepted text is a filter by its expression. -/
theorem selectBy_of_spells {s : String} {e : TagExpr} (h : Spells s e)
    (features : List Feature) : selectBy s features
      = .ok (features.filter (TagFilter.satisfying e).keeps) := by
  rw [selectBy, TagFilter.ofText, if_neg h.not_blank, h.parse]
  rfl

/-- **One list of tags.**  What keeps a part of a feature depends on the
tags of the one scenario that it has. -/
theorem keeps_of_mem_split {expand : Bool} {f g : Feature}
    (h : g ∈ f.split expand) : ∃ names : List String,
      ∀ e : TagExpr, (TagFilter.satisfying e).keeps g = e.holds names := by
  obtain ⟨s, -, blocks, hpart⟩ := partOf_of_mem_split h
  exact ⟨(s.tags ++ f.tags).map Tag.name, hpart.keeps⟩

section Split

variable {expand : Bool} {f g : Feature} (h : g ∈ f.split expand)
include h

/-- A negation keeps what the expression does not. -/
theorem keeps_not (e : TagExpr) : (TagFilter.satisfying (.not e)).keeps g
    = !(TagFilter.satisfying e).keeps g := by
  obtain ⟨names, hnames⟩ := keeps_of_mem_split h
  rw [hnames, hnames, holds]

/-- A conjunction keeps what both expressions keep. -/
theorem keeps_and (e e' : TagExpr) :
    (TagFilter.satisfying (.and e e')).keeps g
      = ((TagFilter.satisfying e).keeps g
        && (TagFilter.satisfying e').keeps g) := by
  obtain ⟨names, hnames⟩ := keeps_of_mem_split h
  rw [hnames, hnames, hnames, holds]

/-- A disjunction keeps what one of them keeps. -/
theorem keeps_or (e e' : TagExpr) :
    (TagFilter.satisfying (.or e e')).keeps g
      = ((TagFilter.satisfying e).keeps g
        || (TagFilter.satisfying e').keeps g) := by
  obtain ⟨names, hnames⟩ := keeps_of_mem_split h
  rw [hnames, hnames, hnames, holds]

end Split

/-- Among its own members a selection has those that are kept. -/
theorem contains_filter {α : Type} [DecidableEq α] (p : α → Bool)
    {l : List α} {a : α} (ha : a ∈ l) : (l.filter p).contains a = p a := by
  cases hp : p a with
  | true => simp [ha, hp]
  | false => simp [hp]

/-- **Tag expressions compose as text.**  Accepted texts may be put
between parentheses and joined, and are read as the negation, the
conjunction and the disjunction of their trees.  So they cut up the parts
of a feature, each selection in the order of the parts: a text and its
negation share them out between them, a conjunction selects what the
second text selects of the selection of the first, and a disjunction what
either of them selects. -/
theorem parse_compose {s r : String} {e e' : TagExpr}
    (hs : parse s = .ok e) (hr : parse r = .ok e') :
    parse ("not (" ++ s ++ ")") = .ok (.not e)
    ∧ parse ("(" ++ s ++ ") and (" ++ r ++ ")") = .ok (.and e e')
    ∧ parse ("(" ++ s ++ ") or (" ++ r ++ ")") = .ok (.or e e')
    ∧ ∀ (f : Feature) (expand : Bool), ∃ kept kept' rest both either,
      selectBy s (f.split expand) = .ok kept
      ∧ selectBy r (f.split expand) = .ok kept'
      ∧ selectBy ("not (" ++ s ++ ")") (f.split expand) = .ok rest
      ∧ (f.split expand).partition kept.contains = (kept, rest)
      ∧ selectBy ("(" ++ s ++ ") and (" ++ r ++ ")") (f.split expand)
        = .ok both
      ∧ selectBy r kept = .ok both
      ∧ selectBy ("(" ++ s ++ ") or (" ++ r ++ ")") (f.split expand)
        = .ok either
      ∧ either = (f.split expand).filter fun g =>
        kept.contains g || kept'.contains g := by
  have hspells := spells_of_parse hs
  have hspells' := spells_of_parse hr
  have hnot := spells_not hspells
  have hand := spells_and hspells hspells'
  have hor := spells_or hspells hspells'
  refine ⟨hnot.parse, hand.parse, hor.parse, fun f expand => ?_⟩
  refine ⟨_, _, _, _, _, selectBy_of_spells hspells _,
    selectBy_of_spells hspells' _, selectBy_of_spells hnot _, ?_,
    selectBy_of_spells hand _, ?_, selectBy_of_spells hor _, ?_⟩
  · rw [List.partition_eq_filter_filter]
    refine Prod.ext ?_ ?_
    · exact List.filter_congr fun g hg => contains_filter _ hg
    · refine List.filter_congr fun g hg => ?_
      rw [keeps_not hg, Function.comp_apply, contains_filter _ hg]
  · rw [selectBy_of_spells hspells', List.filter_filter]
    refine congrArg Except.ok (List.filter_congr fun g hg => ?_)
    rw [keeps_and hg, Bool.and_comm]
  · refine List.filter_congr fun g hg => ?_
    rw [keeps_or hg, contains_filter _ hg, contains_filter _ hg]

/-- A tag that ends in an escaped parenthesis, and a word in capitals
right in front of a tag. -/
theorem parse_compose_escaped :
    parse "@a\\)" = .ok (.tag "@a)")
    ∧ parse "NOT@b" = .ok (.not (.tag "@b"))
    ∧ parse "(@a\\)) and (NOT@b)"
      = .ok (.and (.tag "@a)") (.not (.tag "@b"))) := by
  have hs : parse "@a\\)" = .ok (.tag "@a)") := by cbv
  have hr : parse "NOT@b" = .ok (.not (.tag "@b")) := by cbv
  exact ⟨hs, hr, (parse_compose hs hr).2.1⟩

end SoloScenario.TagExpr
