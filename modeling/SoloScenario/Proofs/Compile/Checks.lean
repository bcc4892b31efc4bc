import Mathlib
import SoloScenario.Compile.Run

/-!
# What is checked before a run

The checks come in an order, each with the failure that it comes to
(`checks`), and the first that fails is the one that counts
(`prepare_eq_error`).  If none fails, the plan has what the checks were
made on (`prepare_eq_ok`).
-/

namespace SoloScenario.Compile

open Files (Disk)

/-- The failure that an error is told as. -/
def failureOf {ε α : Type} (tell : ε → Failure) :
    Except ε α → Option Failure
  | .error e => some (tell e)
  | .ok _ => none

/-- The checks of the options and the search for the sources, in order:
what each of them fails with, if it fails. -/
def checks (disk : Disk) (o : Options) : List (Option Failure) :=
  [if o.patterns.isEmpty then some .noPatterns else none,
    if o.outputDirectory = "" then some .noOutputDirectory else none,
    if disk.isDirectory o.outputDirectory then none
      else some (.notADirectory o.outputDirectory),
    failureOf .language (Dialect.ofCode o.language),
    failureOf .expression (TagFilter.ofText o.tagExpression),
    failureOf .discovery (Files.discover disk o.patterns)]

variable {disk : Disk} {o : Options}

/-- The preparation of a run is its checks. -/
theorem prepare_eq (disk : Disk) (o : Options) : match prepare disk o with
    | .error failure => (checks disk o).findSome? id = some failure
    | .ok plan => (checks disk o).findSome? id = none
      ∧ Dialect.ofCode o.language = .ok plan.dialect
      ∧ TagFilter.ofText o.tagExpression = .ok plan.filter
      ∧ Files.discover disk o.patterns = .ok plan.sources := by
  rw [prepare, checks]
  by_cases hpatterns : o.patterns.isEmpty = true
  · simp [hpatterns, throw, throwThe, MonadExceptOf.throw, bind, Except.bind]
  by_cases hempty : o.outputDirectory = ""
  · simp [hpatterns, hempty, throw, throwThe, MonadExceptOf.throw, bind,
      Except.bind]
  by_cases hdir : disk.isDirectory o.outputDirectory = true
  · cases Dialect.ofCode o.language with
    | error e => simp [hpatterns, hempty, hdir, failureOf, Except.mapError,
        bind, Except.bind]
    | ok dialect =>
        cases TagFilter.ofText o.tagExpression with
        | error e => simp [hpatterns, hempty, hdir, failureOf,
            Except.mapError, bind, Except.bind]
        | ok filter =>
            cases Files.discover disk o.patterns <;>
              simp [hpatterns, hempty, hdir, failureOf, Except.mapError,
                bind, Except.bind, pure, Except.pure]
  · simp [hpatterns, hempty, hdir, throw, throwThe, MonadExceptOf.throw,
      bind, Except.bind]

/-- **The failure is that of the first check that fails.** -/
theorem prepare_eq_error {failure : Failure} :
    prepare disk o = .error failure
      ↔ (checks disk o).findSome? id = some failure := by
  have h := prepare_eq disk o
  cases hp : prepare disk o with
  | error e =>
      rw [hp] at h
      simp [h]
  | ok plan =>
      rw [hp] at h
      simp [h.1]

/-- What is settled before a run is what its options ask for. -/
theorem prepare_eq_ok {plan : Plan} (h : prepare disk o = .ok plan) :
    Dialect.ofCode o.language = .ok plan.dialect
      ∧ TagFilter.ofText o.tagExpression = .ok plan.filter
      ∧ Files.discover disk o.patterns = .ok plan.sources := by
  have hchecks := prepare_eq disk o
  rw [h] at hchecks
  exact hchecks.2

/-- A run with nowhere to write to is not prepared. -/
theorem outputDirectory_ne_empty {plan : Plan}
    (h : prepare disk o = .ok plan) : o.outputDirectory ≠ "" := by
  have hchecks := prepare_eq disk o
  rw [h] at hchecks
  intro hempty
  have hnone := List.findSome?_eq_none_iff.mp hchecks.1
  have hsecond := hnone (some .noOutputDirectory) (by simp [checks, hempty])
  exact absurd hsecond (by simp)

end SoloScenario.Compile
