/-!
# Readers

A **reader** takes something off the front of a text or declines to.
Choice is ordered and repetition greedy: what has been taken is not given
back in order to make a later part fit.

Besides its outcome a reading leaves a `Trace`:

* `furthest` — how far any attempt got before it failed, abandoned ones
  included, as the least number of characters that were left.  This is
  where an error will be shown.
* `doomed` — whether a fault was met that no other alternative can mend.

The outcome of a reading depends on the outcomes of its parts only; the
trace never steers it (`bind_outcome`, `orElse_outcome`).
-/

namespace SoloScenario.Grammar

/-- What a reading leaves besides its outcome. -/
structure Trace where
  furthest : Option Nat
  doomed : Bool
deriving DecidableEq, Repr

namespace Trace

/-- Nothing to tell. -/
def none : Trace :=
  ⟨.none, false⟩

/-- An attempt failed with `left` characters left. -/
def failedAt (left : Nat) : Trace :=
  ⟨some left, false⟩

/-- Both of two traces. -/
def join (t u : Trace) : Trace :=
  ⟨t.furthest.merge min u.furthest, t.doomed || u.doomed⟩

end Trace

/-- The outcome of a reading, with the text behind what was taken, and
its trace. -/
structure Reading (α : Type) where
  outcome : Option (α × List Char)
  trace : Trace
deriving DecidableEq, Repr

/-- A reader of `α`. -/
def Reader (α : Type) : Type :=
  List Char → Reading α

namespace Reader

/-- Takes nothing. -/
def give (a : α) : Reader α :=
  fun s => ⟨some (a, s), .none⟩

/-- One reader, then another that may depend on what the first took. -/
def andThen (p : Reader α) (f : α → Reader β) : Reader β := fun s =>
  let first := p s
  match first.outcome with
  | none => ⟨none, first.trace⟩
  | some (a, r) =>
    let second := f a r
    ⟨second.outcome, first.trace.join second.trace⟩

/-- Readers run one after the other, up to the first that fails. -/
instance : Monad Reader where
  pure := give
  bind := andThen

/-- The first of two readers that does not decline. -/
def orElse (p q : Reader α) : Reader α := fun s =>
  let first := p s
  match first.outcome with
  | some taken => ⟨some taken, first.trace⟩
  | none =>
    let second := q s
    ⟨second.outcome, first.trace.join second.trace⟩

/-- A reader that declines is replaced by another one. -/
instance : OrElse (Reader α) where
  orElse p q := orElse p (q ())

/-- Declines, with the place remembered. -/
def decline : Reader α :=
  fun s => ⟨none, .failedAt s.length⟩

/-- Declines for good: the text as a whole will be refused. -/
def doom : Reader α :=
  fun s => ⟨none, ⟨some s.length, true⟩⟩

/-- The text ahead, of which nothing is taken. -/
def ahead : Reader (List Char) :=
  fun s => ⟨some (s, s), .none⟩

/-- Passes what `f` passes. -/
def skip (f : List Char → List Char) : Reader Unit :=
  fun s => ⟨some ((), f s), .none⟩

/-- Passes what `f` passes, and declines where `f` does, without a
trace. -/
def pass (f : List Char → Option (List Char)) : Reader Unit :=
  fun s => ⟨(f s).map ((), ·), .none⟩

/-- Takes nothing, and declines where `stop` holds of the text ahead,
without a trace. -/
def unlessAt (stop : List Char → Bool) : Reader Unit :=
  fun s => ⟨if stop s then none else some ((), s), .none⟩

/-- Exactly this text. -/
def literal (t : String) : Reader Unit := fun s =>
  if t.toList.isPrefixOf s then ⟨some ((), s.drop t.length), .none⟩
  else ⟨none, .failedAt s.length⟩

/-- What `p` takes, or nothing where it declines. -/
def optional (p : Reader α) : Reader (Option α) := fun s =>
  let first := p s
  match first.outcome with
  | some (a, r) => ⟨some (some a, r), first.trace⟩
  | none => ⟨some (none, s), first.trace⟩

/-- Declines where `p` would take something, and takes nothing.  What `p`
tried leaves no trace. -/
def notAhead (p : Reader α) : Reader Unit :=
  unlessAt fun s => (p s).outcome.isSome

/-- What a repetition has taken, the text behind it, and the trace. -/
def collect (p : Reader α) (s : List Char) : List α × List Char × Trace :=
  let here := p s
  match here.outcome with
  | none => ([], s, here.trace)
  | some (a, r) =>
    if r.length < s.length then
      let later := collect p r
      (a :: later.1, later.2.1, here.trace.join later.2.2)
    else ([], s, here.trace)
termination_by s.length

/-- As many as there are, each of which has to take something. -/
def many (p : Reader α) : Reader (List α) := fun s =>
  let all := collect p s
  ⟨some (all.1, all.2.1), all.2.2⟩

/-- As many as there are, with what `gap` passes in between; a gap with
nothing behind it is not taken.  The first one may have its own reader. -/
def chain (gap : List Char → List Char) (first later : Reader α) :
    Reader (List α) := do
  match ← optional first with
  | none => give []
  | some a =>
    let rest ← many (do skip gap; later)
    give (a :: rest)

/-- A sequence takes what its parts take. -/
theorem bind_outcome (p : Reader α) (f : α → Reader β) (s : List Char) :
    ((p >>= f) s).outcome
      = (p s).outcome.bind fun (a, r) => (f a r).outcome := by
  show (andThen p f s).outcome = _
  unfold andThen
  cases h : (p s).outcome <;> simp [h]

/-- A choice takes what the first part takes that takes anything. -/
theorem orElse_outcome (p q : Reader α) (s : List Char) :
    ((p <|> q) s).outcome = (p s).outcome.or (q s).outcome := by
  show (orElse p q s).outcome = _
  unfold orElse
  cases h : (p s).outcome <;> simp [h]

end Reader

end SoloScenario.Grammar
