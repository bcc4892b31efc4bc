import SoloScenario.Feature.Filter
import SoloScenario.Proofs.TagExpr.Lexical

/-!
# The grammar of tag expressions

`Derives r ts e` says that the tokens `ts` are an expression of rank `r`
with the tree `e`.  A chain of one operator is a chain with one operand
more behind it, so it groups to the left.

The reader works through the tokens with a stack instead.  The two are
tied together by what a state stands for:

* `State.Reads` — the tokens that have led to a state.  Every step keeps
  it (`State.Reads.step`), so that what is accepted has a derivation;
* `Derives.reaches` — from a place where an operand is wanted, the tokens
  of a derivation lead to the place behind it, holding its tree;
* `parse_iff_spells`, `parse_exact` — the reader accepts what the
  grammar derives, and nothing else.
-/

namespace SoloScenario.TagExpr

/-- How tightly an expression binds, the loosest first. -/
inductive Rank where
  | disjunction
  | conjunction
  | negation
  | primary
deriving DecidableEq, Repr

/-- The grammar. -/
inductive Derives : Rank → List Token → TagExpr → Prop
  | oneConjunction {ts : List Token} {e : TagExpr}
      (h : Derives .conjunction ts e) : Derives .disjunction ts e
  | or {ts us : List Token} {l r : TagExpr} (hl : Derives .disjunction ts l)
      (hr : Derives .conjunction us r) :
      Derives .disjunction (ts ++ .operator .or :: us) (.or l r)
  | oneNegation {ts : List Token} {e : TagExpr}
      (h : Derives .negation ts e) : Derives .conjunction ts e
  | and {ts us : List Token} {l r : TagExpr} (hl : Derives .conjunction ts l)
      (hr : Derives .negation us r) :
      Derives .conjunction (ts ++ .operator .and :: us) (.and l r)
  | onePrimary {ts : List Token} {e : TagExpr}
      (h : Derives .primary ts e) : Derives .negation ts e
  | not {ts : List Token} {e : TagExpr} (h : Derives .negation ts e) :
      Derives .negation (.operator .not :: ts) (.not e)
  | tag (name : String) : Derives .primary [.tag name] (.tag name)
  | parens {ts : List Token} {e : TagExpr} (h : Derives .disjunction ts e) :
      Derives .primary (.openParen :: (ts ++ [.closeParen])) e

/-! ## What a state has read -/

/-- The tokens of an operand that waits for what is right of its
operator. -/
inductive Pending (r : Rank) (op : Operator) : Option TagExpr → List Token → Prop
  | none : Pending r op none []
  | some {ts : List Token} {e : TagExpr} (h : Derives r ts e) :
      Pending r op (some e) (ts ++ [.operator op])

/-- The tokens of a level in front of its next operand. -/
def Level.Reads (l : Level) (ts : List Token) : Prop :=
  ∃ ds cs, Pending .disjunction .or l.disjunct ds
    ∧ Pending .conjunction .and l.conjunct cs
    ∧ ts = ds ++ cs ++ List.replicate l.negations (.operator .not)

/-- The tokens in front of the innermost level. -/
inductive OuterReads : List (Nat × Level) → List Token → Prop
  | nil : OuterReads [] []
  | cons {offset : Nat} {l : Level} {outer : List (Nat × Level)}
      {ts us : List Token} (houter : OuterReads outer ts)
      (hl : l.Reads us) :
      OuterReads ((offset, l) :: outer) (ts ++ us ++ [.openParen])

/-- The tokens of the operand that a phase holds. -/
def Phase.Reads : Phase → List Token → Prop
  | .wanting _, ts => ts = []
  | .holding e, ts => Derives .primary ts e

/-- The tokens that have led to a state. -/
def State.Reads (s : State) (ts : List Token) : Prop :=
  ∃ os ls ps, OuterReads s.outer os ∧ s.level.Reads ls ∧ s.phase.Reads ps
    ∧ ts = os ++ ls ++ ps

/-- Words that negate stand in front of what they negate. -/
theorem derives_negate (n : Nat) {us : List Token} {e : TagExpr}
    (h : Derives .negation us e) :
    Derives .negation (List.replicate n (.operator .not) ++ us)
      (Level.negate n e) := by
  induction n with
  | zero => exact h
  | succ n ih => exact .not ih

/-- An operand closes the last conjunction of a level. -/
theorem derives_conjunction {l : Level} {cs us : List Token} {e : TagExpr}
    (hc : Pending .conjunction .and l.conjunct cs)
    (h : Derives .primary us e) :
    Derives .conjunction
      (cs ++ List.replicate l.negations (.operator .not) ++ us)
      (l.conjunction e) := by
  have hn := derives_negate l.negations (.onePrimary h)
  cases l with
  | mk disjunct conjunct negations =>
      cases hc with
      | none => exact .oneNegation hn
      | some hleft => simpa [Level.conjunction] using Derives.and hleft hn

/-- An operand closes a level. -/
theorem Level.Reads.value {l : Level} {ls us : List Token} {e : TagExpr}
    (hl : l.Reads ls) (h : Derives .primary us e) :
    Derives .disjunction (ls ++ us) (l.value e) := by
  obtain ⟨ds, cs, hd, hc, rfl⟩ := hl
  have hr := derives_conjunction hc h
  cases l with
  | mk disjunct conjunct negations =>
      cases hd with
      | none => simpa [Level.value] using Derives.oneConjunction hr
      | some hleft => simpa [Level.value] using Derives.or hleft hr

/-- A new level has read nothing. -/
theorem Level.Reads.empty : Level.empty.Reads [] :=
  ⟨[], [], .none, .none, rfl⟩

/-- Nor has the state at the start. -/
theorem State.Reads.initial : State.initial.Reads [] :=
  ⟨[], [], [], .nil, .empty, rfl, rfl⟩

/-- Where an operand is wanted, a token that is taken is added to what
has been read. -/
theorem State.Reads.wantOperand {s s' : State} {os ls : List Token}
    (houter : OuterReads s.outer os) (hlevel : s.level.Reads ls)
    {before : Before} {start : Nat} {t : Token}
    (h : s.wantOperand before start t = .ok s') :
    s'.Reads (os ++ ls ++ [t]) := by
  unfold State.wantOperand at h
  split at h
  · next name =>
      simp only [Except.ok.injEq] at h
      subst h
      exact ⟨os, ls, [.tag name], houter, hlevel, .tag name, rfl⟩
  · simp only [Except.ok.injEq] at h
    subst h
    exact ⟨os ++ ls ++ [.openParen], [], [], houter.cons hlevel, .empty, rfl,
      by simp⟩
  · simp only [Except.ok.injEq] at h
    subst h
    obtain ⟨ds, cs, hd, hc, rfl⟩ := hlevel
    refine ⟨os, ds ++ cs ++ List.replicate (s.level.negations + 1)
      (.operator .not), [], houter, ⟨ds, cs, hd, hc, rfl⟩, rfl, ?_⟩
    simp [List.replicate_succ']
  · simp at h

/-- Behind an operand, a token that is taken is added to what has been
read. -/
theorem State.Reads.afterOperand {s s' : State} {os ls ps : List Token}
    (houter : OuterReads s.outer os) (hlevel : s.level.Reads ls)
    {e : TagExpr} (he : Derives .primary ps e) {start : Nat} {t : Token}
    (h : s.afterOperand e start t = .ok s') :
    s'.Reads (os ++ ls ++ ps ++ [t]) := by
  unfold State.afterOperand at h
  split at h
  · simp only [Except.ok.injEq] at h
    subst h
    obtain ⟨ds, cs, hd, hc, rfl⟩ := hlevel
    have hr := derives_conjunction hc he
    exact ⟨os, _, [], houter, ⟨ds, _, hd, .some hr, rfl⟩, rfl, by simp⟩
  · simp only [Except.ok.injEq] at h
    subst h
    have hr := hlevel.value he
    exact ⟨os, _, [], houter, ⟨_, [], .some hr, .none, rfl⟩, rfl, by simp⟩
  · next offset level outer heq =>
      simp only [Except.ok.injEq] at h
      subst h
      rw [heq] at houter
      cases houter with
      | @cons _ _ _ ts us hts hus =>
          have hp := Derives.parens (hlevel.value he)
          exact ⟨ts, us, _, hts, hus, hp, by simp⟩
  · simp at h

/-- **Step.**  A token that is taken is added to what has been read. -/
theorem State.Reads.step {s s' : State} {ts : List Token} (hs : s.Reads ts)
    {placed : Nat × Token} (h : s.step placed = .ok s') :
    s'.Reads (ts ++ [placed.2]) := by
  obtain ⟨os, ls, ps, houter, hlevel, hphase, rfl⟩ := hs
  unfold State.step at h
  split at h
  · next before heq =>
      rw [heq] at hphase
      obtain rfl : ps = [] := hphase
      simpa using State.Reads.wantOperand houter hlevel h
  · next e heq =>
      rw [heq] at hphase
      exact State.Reads.afterOperand houter hlevel hphase h

/-- **Run.**  The tokens of a run are added to what has been read. -/
theorem State.Reads.run {s s' : State} {ts : List Token} (hs : s.Reads ts)
    {placed : List (Nat × Token)}
    (h : placed.foldlM State.step s = .ok s') :
    s'.Reads (ts ++ placed.map Prod.snd) := by
  induction placed generalizing s ts with
  | nil =>
      obtain rfl : s = s' := by simpa [pure, Except.pure] using h
      simpa using hs
  | cons p placed ih =>
      rw [List.foldlM_cons] at h
      cases hstep : s.step p with
      | error error => simp [hstep, bind, Except.bind] at h
      | ok next =>
          rw [hstep] at h
          simpa using ih (hs.step hstep) h

/-- What is read at the end of a text has a derivation. -/
theorem State.Reads.finish {s : State} {ts : List Token} (hs : s.Reads ts)
    {offset : Nat} {e : TagExpr} (h : s.finish offset = .ok e) :
    Derives .disjunction ts e := by
  obtain ⟨os, ls, ps, houter, hlevel, hphase, rfl⟩ := hs
  unfold State.finish at h
  split at h
  · simp at h
  · simp at h
  · next operand hp ho =>
      simp only [Except.ok.injEq] at h
      subst h
      rw [hp] at hphase
      rw [ho] at houter
      cases houter with
      | nil => simpa using hlevel.value hphase
  · simp at h

/-! ## Where a derivation leads -/

/-- Where the tokens of an expression of this rank lead from a place where
it may stand.  A conjunction may only start a disjunct, and a disjunction
only a level; what they have added to the level is not fixed, but closed
by the operand that is held it makes the expression. -/
def Reaches : Rank → List (Nat × Token) → TagExpr → Prop
  | .primary, placed, e => ∀ outer level before,
      placed.foldlM State.step ⟨outer, level, .wanting before⟩
        = .ok ⟨outer, level, .holding e⟩
  | .negation, placed, e => ∀ outer d c n before, ∃ m held,
      placed.foldlM State.step ⟨outer, ⟨d, c, n⟩, .wanting before⟩
        = .ok ⟨outer, ⟨d, c, m⟩, .holding held⟩
        ∧ Level.negate m held = Level.negate n e
  | .conjunction, placed, e => ∀ outer d before, ∃ c n held,
      placed.foldlM State.step ⟨outer, ⟨d, none, 0⟩, .wanting before⟩
        = .ok ⟨outer, ⟨d, c, n⟩, .holding held⟩
        ∧ Level.conjunction ⟨d, c, n⟩ held = e
  | .disjunction, placed, e => ∀ outer before, ∃ level held,
      placed.foldlM State.step ⟨outer, .empty, .wanting before⟩
        = .ok ⟨outer, level, .holding held⟩
        ∧ level.value held = e

/-- What is read in two parts is read. -/
theorem run_append {s t u : State} {xs ys : List (Nat × Token)}
    (hxs : xs.foldlM State.step s = .ok t)
    (hys : ys.foldlM State.step t = .ok u) :
    (xs ++ ys).foldlM State.step s = .ok u := by
  rw [List.foldlM_append, hxs]
  exact hys

/-- What is read with one token first is read. -/
theorem run_cons {s t u : State} {x : Nat × Token} {ys : List (Nat × Token)}
    (hx : s.step x = .ok t) (hys : ys.foldlM State.step t = .ok u) :
    (x :: ys).foldlM State.step s = .ok u := by
  rw [List.foldlM_cons, hx]
  exact hys

/-- An operator behind the `not`s of a level adds one to them. -/
theorem negate_succ (n : Nat) (e : TagExpr) :
    Level.negate (n + 1) e = Level.negate n (.not e) := by
  induction n with
  | zero => rfl
  | succ n ih => exact congrArg TagExpr.not ih

/-- **Completeness of the reader.**  The tokens of a derivation lead to a
place that holds its tree, wherever in the text they stand. -/
theorem Derives.reaches {r : Rank} {ts : List Token} {e : TagExpr}
    (h : Derives r ts e) {placed : List (Nat × Token)}
    (hp : placed.map Prod.snd = ts) : Reaches r placed e := by
  induction h generalizing placed with
  | oneConjunction _ ih =>
      intro outer before
      obtain ⟨c, n, held, hrun, hvalue⟩ := ih hp outer none before
      exact ⟨⟨none, c, n⟩, held, hrun, hvalue⟩
  | @or ts us l r _ _ ihl ihr =>
      intro outer before
      obtain ⟨xs, ys, rfl, hxs, hys⟩ := List.map_eq_append_iff.mp hp
      obtain ⟨y, zs, rfl, hy, hzs⟩ := List.map_eq_cons_iff.mp hys
      obtain ⟨level, held, hleft, rfl⟩ := ihl hxs outer before
      obtain ⟨c, n, last, hright, hvalue⟩ :=
        ihr hzs outer (some (level.value held)) (.operator .or)
      refine ⟨⟨some (level.value held), c, n⟩, last,
        run_append hleft (run_cons ?_ hright), ?_⟩
      · simp [State.step, State.afterOperand, hy]
      · exact congrArg (TagExpr.or _) hvalue
  | oneNegation _ ih =>
      intro outer d before
      obtain ⟨m, held, hrun, hvalue⟩ := ih hp outer d none 0 before
      exact ⟨none, m, held, hrun, hvalue⟩
  | @and ts us l r _ _ ihl ihr =>
      intro outer d before
      obtain ⟨xs, ys, rfl, hxs, hys⟩ := List.map_eq_append_iff.mp hp
      obtain ⟨y, zs, rfl, hy, hzs⟩ := List.map_eq_cons_iff.mp hys
      obtain ⟨c, n, held, hleft, rfl⟩ := ihl hxs outer d before
      obtain ⟨m, last, hright, hvalue⟩ := ihr hzs outer d
        (some (Level.conjunction ⟨d, c, n⟩ held)) 0 (.operator .and)
      refine ⟨some (Level.conjunction ⟨d, c, n⟩ held), m, last,
        run_append hleft (run_cons ?_ hright), ?_⟩
      · simp [State.step, State.afterOperand, hy]
      · exact congrArg (TagExpr.and _) hvalue
  | onePrimary _ ih =>
      intro outer d c n before
      exact ⟨n, _, ih hp outer ⟨d, c, n⟩ before, rfl⟩
  | @not ts e _ ih =>
      intro outer d c n before
      obtain ⟨x, xs, rfl, hx, hxs⟩ := List.map_eq_cons_iff.mp hp
      -- The count of the level goes up before the operand is there.
      obtain ⟨m, held, hrun, hvalue⟩ :=
        ih hxs outer d c (n + 1) (.operator .not)
      refine ⟨m, held, run_cons ?_ hrun, hvalue.trans (negate_succ n e)⟩
      simp [State.step, State.wantOperand, hx]
  | tag name =>
      intro outer level before
      obtain ⟨x, xs, rfl, hx, hxs⟩ := List.map_eq_cons_iff.mp hp
      obtain rfl := List.map_eq_nil_iff.mp hxs
      refine run_cons ?_ rfl
      simp [State.step, State.wantOperand, hx]
  | @parens ts e _ ih =>
      intro outer level before
      obtain ⟨x, ys, rfl, hx, hys⟩ := List.map_eq_cons_iff.mp hp
      obtain ⟨xs, zs, rfl, hxs, hzs⟩ := List.map_eq_append_iff.mp hys
      obtain ⟨z, ws, rfl, hz, hws⟩ := List.map_eq_cons_iff.mp hzs
      obtain rfl := List.map_eq_nil_iff.mp hws
      -- The level waits outside until its parenthesis is closed.
      obtain ⟨inner, held, hrun, rfl⟩ :=
        ih hxs ((x.1, level) :: outer) (.paren x.1)
      refine run_cons ?_ (run_append hrun (run_cons ?_ rfl))
      · simp [State.step, State.wantOperand, hx]
      · simp [State.step, State.afterOperand, hz]

/-! ## Reading a text -/

/-- The text is made of tokens that derive the tree. -/
def Spells (text : String) (e : TagExpr) : Prop :=
  ∃ ts, Lexes text.toList ts ∧ Derives .disjunction ts e

/-- What is accepted is derived by the grammar. -/
theorem spells_of_parse {text : String} {e : TagExpr}
    (h : parse text = .ok e) : Spells text e := by
  simp only [parse, ofScan, bind, Except.bind] at h
  split at h
  · simp at h
  · next s hrun =>
      split at h
      · simp at h
      · next offset hend =>
          refine ⟨_, lexes_iff_yields.mpr ⟨rfl, offset, hend⟩, ?_⟩
          have hs := State.Reads.initial.run hrun
          simpa using hs.finish h

/-- What the grammar derives is accepted. -/
theorem Spells.parse {text : String} {e : TagExpr} (h : Spells text e) :
    parse text = .ok e := by
  obtain ⟨ts, hlex, hder⟩ := h
  obtain ⟨hts, offset, hend⟩ := lexes_iff_yields.mp hlex
  obtain ⟨level, held, hrun, hvalue⟩ := hder.reaches hts [] .start
  have hinit : (scan text.toList).tokens.foldlM State.step State.initial
      = .ok ⟨[], level, .holding held⟩ := hrun
  rw [TagExpr.parse, ofScan, hinit, hend]
  exact congrArg Except.ok hvalue

/-- The reader is the grammar. -/
theorem parse_iff_spells {text : String} {e : TagExpr} :
    TagExpr.parse text = .ok e ↔ Spells text e :=
  ⟨spells_of_parse, Spells.parse⟩

/-- A text has no tokens exactly where it is blank. -/
theorem lexes_nil_iff {s : List Char} :
    Lexes s [] ↔ Text.isAllBlank s = true := by
  constructor
  · intro h
    generalize hts : ([] : List Token) = ts at h
    induction h with
    | nil => rfl
    | blank hc _ ih => simp [Text.isAllBlank, hc, ← ih hts]
    | openParen | closeParen | word | tag => simp at hts
  · intro h
    induction s with
    | nil => exact .nil
    | cons c s ih =>
        simp only [Text.isAllBlank, List.all_cons, Bool.and_eq_true] at h
        exact .blank h.1 (ih h.2)

/-- The tokens of a text are its only tokens. -/
theorem Lexes.unique {s : List Char} {ts us : List Token} (hts : Lexes s ts)
    (hus : Lexes s us) : ts = us :=
  (lexes_iff_yields.mp hts).1.symm.trans (lexes_iff_yields.mp hus).1

/-- The grammar gives a list of tokens one tree. -/
theorem Derives.unique {ts : List Token} {e f : TagExpr}
    (he : Derives .disjunction ts e) (hf : Derives .disjunction ts f) :
    e = f := by
  -- The reader holds one tree behind the tokens, whatever their places.
  let placed := ts.map fun t => (0, t)
  have hp : placed.map Prod.snd = ts := by
    simp [placed, Function.comp_def]
  obtain ⟨l, held, hrun, rfl⟩ := he.reaches hp [] .start
  obtain ⟨m, last, hlast, rfl⟩ := hf.reaches hp [] .start
  rw [hrun] at hlast
  simp only [Except.ok.injEq, State.mk.injEq, Phase.holding.injEq] at hlast
  obtain ⟨-, rfl, rfl⟩ := hlast
  rfl

/-- A filter keeps everything exactly where its text has no tokens. -/
theorem ofText_eq_all_iff {text : String} :
    TagFilter.ofText text = .ok .all ↔ Lexes text.toList [] := by
  rw [lexes_nil_iff]
  unfold TagFilter.ofText
  split
  · next h => simp [h]
  · next h =>
      cases TagExpr.parse text with
      | error error => simp [Except.map, h]
      | ok e => simp [Except.map, h]

/-- **The reader accepts the grammar, the whole of it and nothing else.**
A text is read as `e` exactly where it is made of tokens that derive `e`;
the text determines the tokens and the tokens determine the tree.  A
filter keeps everything exactly where its text has no tokens, and is read
like an expression otherwise. -/
theorem parse_exact (text : String) :
    (∀ e, TagExpr.parse text = .ok e
      ↔ ∃ ts, Lexes text.toList ts ∧ Derives .disjunction ts e)
    ∧ (∀ ts us, Lexes text.toList ts → Lexes text.toList us → ts = us)
    ∧ (∀ ts e f, Derives .disjunction ts e → Derives .disjunction ts f →
      e = f)
    ∧ (TagFilter.ofText text = .ok .all ↔ Lexes text.toList [])
    ∧ (¬ Lexes text.toList [] →
      TagFilter.ofText text = (TagExpr.parse text).map .satisfying) := by
  refine ⟨fun e => parse_iff_spells, fun ts us => Lexes.unique,
    fun ts e f => Derives.unique, ofText_eq_all_iff, fun h => ?_⟩
  rw [lexes_nil_iff] at h
  rw [TagFilter.ofText, if_neg h]

/-- A chain with parentheses and negations, with no blank to spare. -/
theorem parse_exact_chain :
    ¬ Lexes "(@a)And not@b".toList []
    ∧ TagFilter.ofText "(@a)And not@b"
      = .ok (.satisfying (.and (.tag "@a") (.not (.tag "@b")))) := by
  have hne : ¬ Lexes "(@a)And not@b".toList [] := by
    rw [lexes_nil_iff]
    decide
  have hparse : TagExpr.parse "(@a)And not@b"
      = .ok (.and (.tag "@a") (.not (.tag "@b"))) := by
    cbv
  refine ⟨hne, ?_⟩
  rw [(parse_exact "(@a)And not@b").2.2.2.2 hne, hparse]
  rfl

end SoloScenario.TagExpr
