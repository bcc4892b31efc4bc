import SoloScenario.Grammar.Reader

/-!
# What a reader does at a text

Two judgments describe a reading that leaves the text as a whole
acceptable: `Takes p s a r` says that `p` reads `a` off the text `s` and
leaves `r`, and `Declines p s` that `p` reads nothing there.  Both say as
well that nothing was met that dooms the text, in abandoned attempts
included, so they can be put together along the way readers are: there is
a lemma for every way to build a reader, and no later proof opens one of
these.
-/

namespace SoloScenario.Grammar

open Reader

/-- The reader reads `a` off the text `s` and leaves `r`. -/
structure Takes {α : Type} (p : Reader α) (s : List Char) (a : α)
    (r : List Char) : Prop where
  outcome : (p s).outcome = some (a, r)
  spared : (p s).trace.doomed = false

/-- The reader reads nothing off the text `s`. -/
structure Declines {α : Type} (p : Reader α) (s : List Char) : Prop where
  outcome : (p s).outcome = none
  spared : (p s).trace.doomed = false

variable {α β : Type} {p q : Reader α} {f : α → Reader β}
  {s r t : List Char} {a : α} {b : β}

/-! ## Single readers -/

/-- Giving an answer takes nothing. -/
theorem takes_give (a : α) (s : List Char) : Takes (give a) s a s :=
  ⟨rfl, rfl⟩

/-- Looking ahead takes nothing. -/
theorem takes_ahead (s : List Char) : Takes ahead s s s :=
  ⟨rfl, rfl⟩

/-- Skipping takes what is skipped. -/
theorem takes_skip {g : List Char → List Char} (h : g s = r) :
    Takes (skip g) s () r :=
  ⟨congrArg (fun t => some ((), t)) h, rfl⟩

/-- Passing takes what is passed, if there is something. -/
theorem takes_pass {g : List Char → Option (List Char)} (h : g s = some r) :
    Takes (pass g) s () r := by
  refine ⟨?_, rfl⟩
  show (g s).map ((), ·) = some ((), r)
  rw [h]
  rfl

/-- Where nothing stops, the reader goes on. -/
theorem takes_unlessAt {stop : List Char → Bool} (h : stop s = false) :
    Takes (unlessAt stop) s () s :=
  ⟨by simp [unlessAt, h], rfl⟩

/-- Where something stops, it declines. -/
theorem declines_unlessAt {stop : List Char → Bool} (h : stop s = true) :
    Declines (unlessAt stop) s :=
  ⟨by simp [unlessAt, h], rfl⟩

/-- A literal is taken where it stands. -/
theorem takes_literal (word : String) (r : List Char) :
    Takes (literal word) (word.toList ++ r) () r := by
  have h : word.toList.isPrefixOf (word.toList ++ r) = true :=
    List.isPrefixOf_iff_prefix.mpr (List.prefix_append _ _)
  constructor
  · rw [literal, if_pos h, ← String.length_toList, List.drop_left]
  · rw [literal, if_pos h]
    rfl

/-- Where it does not stand it is declined. -/
theorem declines_literal {word : String} (h : ¬ word.toList <+: s) :
    Declines (literal word) s := by
  have hs : ¬ word.toList.isPrefixOf s = true := fun hp =>
    h (List.isPrefixOf_iff_prefix.mp hp)
  constructor
  · rw [literal, if_neg hs]
  · rw [literal, if_neg hs]
    rfl

/-! ## Sequences -/

/-- One reading behind another. -/
theorem Takes.bind (hp : Takes p s a r) (hf : Takes (f a) r b t) :
    Takes (p >>= f) s b t := by
  constructor
  · rw [bind_outcome, hp.outcome]
    exact hf.outcome
  · show ((andThen p f) s).trace.doomed = false
    simp [andThen, hp.outcome, Trace.join, hp.spared, hf.spared]

/-- A sequence declines where its second part does. -/
theorem Takes.bind_declines (hp : Takes p s a r) (hf : Declines (f a) r) :
    Declines (p >>= f) s := by
  constructor
  · rw [bind_outcome, hp.outcome]
    exact hf.outcome
  · show ((andThen p f) s).trace.doomed = false
    simp [andThen, hp.outcome, Trace.join, hp.spared, hf.spared]

/-- A sequence declines where its first part does. -/
theorem Declines.bind (hp : Declines p s) : Declines (p >>= f) s := by
  constructor
  · rw [bind_outcome, hp.outcome]
    rfl
  · show ((andThen p f) s).trace.doomed = false
    simp [andThen, hp.outcome, hp.spared]

/-! ## Choices -/

/-- The first of two readers is preferred. -/
theorem Takes.orElse (hp : Takes p s a r) : Takes (p <|> q) s a r := by
  constructor
  · rw [orElse_outcome, hp.outcome]
    rfl
  · show (Reader.orElse p q s).trace.doomed = false
    simp [Reader.orElse, hp.outcome, hp.spared]

/-- Where the first declines, the second one is asked. -/
theorem Declines.orElse (hp : Declines p s) (hq : Takes q s a r) :
    Takes (p <|> q) s a r := by
  constructor
  · rw [orElse_outcome, hp.outcome, hq.outcome]
    rfl
  · show (Reader.orElse p q s).trace.doomed = false
    simp [Reader.orElse, hp.outcome, Trace.join, hp.spared, hq.spared]

/-- Two readers that decline decline together. -/
theorem Declines.orElse_declines (hp : Declines p s) (hq : Declines q s) :
    Declines (p <|> q) s := by
  constructor
  · rw [orElse_outcome, hp.outcome, hq.outcome]
    rfl
  · show (Reader.orElse p q s).trace.doomed = false
    simp [Reader.orElse, hp.outcome, Trace.join, hp.spared, hq.spared]

/-- What may be missing is taken if it is there. -/
theorem Takes.optional (hp : Takes p s a r) :
    Takes (optional p) s (some a) r := by
  constructor <;> simp [Reader.optional, hp.outcome, hp.spared]

/-- If it is not there, nothing is taken. -/
theorem Declines.optional (hp : Declines p s) :
    Takes (optional p) s none s := by
  constructor <;> simp [Reader.optional, hp.outcome, hp.spared]

/-- What may not follow does not follow. -/
theorem Declines.notAhead (hp : Declines p s) : Takes (notAhead p) s () s :=
  takes_unlessAt (by rw [hp.outcome]; rfl)

/-- What follows although it may not is declined. -/
theorem Takes.notAhead (hp : Takes p s a r) : Declines (notAhead p) s :=
  declines_unlessAt (by rw [hp.outcome]; rfl)

/-! ## Repetitions -/

/-- A repetition is over where its part declines. -/
theorem Declines.many (hp : Declines p s) : Takes (many p) s [] s := by
  constructor
  · rw [Reader.many, collect, hp.outcome]
  · rw [Reader.many, collect, hp.outcome]
    exact hp.spared

/-- One more part of a repetition, which took something off the text. -/
theorem Takes.many {as : List α} (hp : Takes p s a r)
    (hlt : r.length < s.length) (hrest : Takes (many p) r as t) :
    Takes (many p) s (a :: as) t := by
  have h := hrest.outcome
  have hs := hrest.spared
  simp only [Reader.many, Option.some.injEq, Prod.mk.injEq] at h hs
  constructor
  · simp only [Reader.many]
    rw [collect, hp.outcome]
    simp [hlt, h]
  · simp only [Reader.many]
    rw [collect, hp.outcome]
    simp [hlt, Trace.join, hp.spared, hs]

/-- A repetition reads a list off its text, where it reads off each item
in front of the others and nothing behind the last. -/
theorem takes_many {P : β → Prop} {g : β → α} {w : List β → List Char}
    (hend : Declines p (w []))
    (hitem : ∀ x xs, (∀ y ∈ x :: xs, P y) → Takes p (w (x :: xs)) (g x) (w xs))
    (hlt : ∀ x xs, (w xs).length < (w (x :: xs)).length)
    {xs : List β} (h : ∀ x ∈ xs, P x) :
    Takes (many p) (w xs) (xs.map g) (w []) := by
  induction xs with
  | nil => exact hend.many
  | cons x xs ih =>
      have hrest := ih fun y hy => h y (List.mem_cons_of_mem _ hy)
      exact (hitem x xs h).many (hlt x xs) hrest

/-- A chain has nothing where its first part declines. -/
theorem Declines.chain {gap : List Char → List Char} (hp : Declines p s) :
    Takes (chain gap p q) s [] s :=
  hp.optional.bind (takes_give [] s)

/-- A chain is its first part and a repetition of the others. -/
theorem Takes.chain {gap : List Char → List Char} {as : List α}
    (hp : Takes p s a r)
    (hrest : Takes (Reader.many (do skip gap; q)) r as t) :
    Takes (chain gap p q) s (a :: as) t :=
  hp.optional.bind (hrest.bind (takes_give (a :: as) t))

end SoloScenario.Grammar
