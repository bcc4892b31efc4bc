import Mathlib
import SoloScenario.Output.StampClock

/-!
# Stamps increase

A clock never gives out a stamp twice as long as it has room: the largest
reading and the number of stamps have to stay below `2 ^ 63` together
(`StampClock.Roomy`).  Where there is no room left, the last stamp of all
is given out again and again.

* `stamps_increase` — the stamps of readings with room strictly increase;
* `stamps_range` — the stamps of a run whose `n`-th reading is
  `readings n`, one by one (`stampAt`);
* `stampAt_lt` — they increase until the clock is at its end, and not only
  if there is room (`Lasts`);
* `lasts_of_dated` — no run comes near the end of a clock that is read from
  a calendar (`Dated`).
-/

namespace SoloScenario.Output

namespace StampClock

/-- There is room for as many stamps as there are readings. -/
def Roomy (readings : List Int64) : Prop :=
  ∀ r ∈ readings, r.toInt + readings.length < 2 ^ 63

/-- A stamp that is not the last of all has a successor. -/
theorem toInt_saturatingSucc {n : Int64} (h : n.toInt + 1 < 2 ^ 63) :
    (saturatingSucc n).toInt = n.toInt + 1 := by
  have hmax : n ≠ Int64.maxValue := by
    rintro rfl
    exact absurd h (by decide)
  have hlow := n.le_toInt
  rw [saturatingSucc, if_neg hmax, Int64.toInt_add]
  exact Int.bmod_eq_of_le (by simp; omega) (by simp; omega)

/-- A stamp is beyond the last one, and no further than it has to be. -/
theorem stamp_room {clock : StampClock} {now : Int64} {n : Nat}
    (hlast : ∀ last ∈ clock.last, last.toInt + (n + 1) < 2 ^ 63)
    (hnow : now.toInt + (n + 1) < 2 ^ 63) :
    (clock.stamp now).toInt + n < 2 ^ 63
      ∧ ∀ last ∈ clock.last, last < clock.stamp now := by
  obtain ⟨last⟩ := clock
  cases last with
  | none =>
      refine ⟨?_, by simp⟩
      show now.toInt + n < 2 ^ 63
      omega
  | some last =>
      have hroom : last.toInt + (n + 1) < 2 ^ 63 := hlast last rfl
      simp only [stamp, Option.mem_def, Option.some.injEq, forall_eq']
      split
      · have hsucc := toInt_saturatingSucc (n := last) (by omega)
        rw [Int64.lt_iff_toInt_lt, hsucc]
        omega
      · next h =>
          rw [Int64.le_iff_toInt_le] at h
          rw [Int64.lt_iff_toInt_lt]
          omega

/-- Every stamp is beyond the last one given out before, and each beyond
those in front of it. -/
theorem stamps_above {clock : StampClock} {readings : List Int64}
    (hlast : ∀ last ∈ clock.last, last.toInt + readings.length < 2 ^ 63)
    (hroom : Roomy readings) :
    (clock.stamps readings).Pairwise (· < ·)
      ∧ ∀ last ∈ clock.last, ∀ s ∈ clock.stamps readings, last < s := by
  -- The last stamp given out stays in front of all that are to come.
  induction readings generalizing clock with
  | nil => simp [stamps]
  | cons now later ih =>
      have hlast' : ∀ last ∈ clock.last,
          last.toInt + (later.length + 1) < 2 ^ 63 := by
        simpa using hlast
      have hnow : now.toInt + (later.length + 1) < 2 ^ 63 := by
        simpa using hroom now List.mem_cons_self
      obtain ⟨hstamp, habove⟩ := stamp_room hlast' hnow
      have hnext : ∀ last ∈ (clock.advance now).last,
          last.toInt + later.length < 2 ^ 63 := by
        intro last h
        obtain rfl : clock.stamp now = last := by simpa [advance] using h
        exact hstamp
      have hlater : Roomy later := by
        intro r hr
        have := hroom r (List.mem_cons_of_mem _ hr)
        simp only [List.length_cons] at this
        omega
      obtain ⟨hpair, hall⟩ := ih hnext hlater
      have hfirst : ∀ s ∈ (clock.advance now).stamps later,
          clock.stamp now < s := hall _ rfl
      refine ⟨List.pairwise_cons.mpr ⟨hfirst, hpair⟩, ?_⟩
      intro last h s hs
      rcases List.mem_cons.mp hs with rfl | hs
      · exact habove last h
      · exact Int64.lt_trans (habove last h) (hfirst s hs)

/-- **The stamps of readings with room strictly increase.** -/
theorem stamps_increase {readings : List Int64} (h : Roomy readings) :
    (new.stamps readings).Pairwise (· < ·) :=
  (stamps_above (by simp [new]) h).1

/-- Without room the last stamp of all is repeated. -/
example : new.stamps [Int64.maxValue, 0, 5]
    = [Int64.maxValue, Int64.maxValue, Int64.maxValue] := by decide

/-! ## Stamps by number -/

/-- The clock when `n` readings have been made. -/
def after (readings : Nat → Int64) : Nat → StampClock
  | 0 => new
  | n + 1 => (after readings n).advance (readings n)

/-- The stamp number `n`, counted from zero. -/
def stampAt (readings : Nat → Int64) (n : Nat) : Int64 :=
  (after readings n).stamp (readings n)

/-- The stamps for `n` readings from number `k` on. -/
theorem stamps_range' (readings : Nat → Int64) (k n : Nat) :
    (after readings k).stamps ((List.range' k n).map readings)
      = (List.range' k n).map (stampAt readings) := by
  induction n generalizing k with
  | zero => rfl
  | succ n ih =>
      rw [List.range'_succ, List.map_cons, List.map_cons, stamps]
      exact congrArg _ (ih (k + 1))

/-- The stamps of the first readings of a sequence. -/
theorem stamps_range (readings : Nat → Int64) (n : Nat) :
    new.stamps ((List.range n).map readings)
      = (List.range n).map (stampAt readings) := by
  rw [List.range_eq_range']
  exact stamps_range' readings 0 n

/-- The last stamp of all is not given out before the last one of `n`. -/
def Lasts (readings : Nat → Int64) (n : Nat) : Prop :=
  ∀ k, k + 1 < n → stampAt readings k ≠ Int64.maxValue

/-- A stamp that is not the last of all is below its successor. -/
theorem lt_saturatingSucc {n : Int64} (h : n ≠ Int64.maxValue) :
    n < saturatingSucc n := by
  have hlow : n.toInt < 2 ^ 63 - 1 := by
    have hle := n.toInt_le
    have hne : n.toInt ≠ Int64.maxValue.toInt :=
      fun heq => h (Int64.toInt_inj.mp heq)
    have hmax : Int64.maxValue.toInt = 2 ^ 63 - 1 := by decide
    omega
  rw [Int64.lt_iff_toInt_lt, toInt_saturatingSucc (by omega)]
  omega

/-- A stamp is beyond the one in front of it, if that has a successor. -/
theorem stampAt_lt_succ {readings : Nat → Int64} {k : Nat}
    (h : stampAt readings k ≠ Int64.maxValue) :
    stampAt readings k < stampAt readings (k + 1) := by
  have hnext : stampAt readings (k + 1)
      = if readings (k + 1) ≤ stampAt readings k
        then saturatingSucc (stampAt readings k) else readings (k + 1) := rfl
  rw [hnext]
  split
  · exact lt_saturatingSucc h
  · next hnot => exact Int64.not_le.mp hnot

/-- **The stamps of a clock that lasts strictly increase.** -/
theorem stampAt_lt {readings : Nat → Int64} {n : Nat} (h : Lasts readings n)
    {i j : Nat} (hij : i < j) (hj : j < n) :
    stampAt readings i < stampAt readings j := by
  induction j with
  | zero => omega
  | succ j ih =>
      have hstep := stampAt_lt_succ (h j hj)
      by_cases heq : i = j
      · rwa [heq]
      · exact Int64.lt_trans (ih (by omega) (by omega)) hstep

/-- A clock with room lasts. -/
theorem lasts_of_roomy {readings : Nat → Int64} {n : Nat}
    (h : Roomy ((List.range n).map readings)) : Lasts readings n := by
  have hpair := stamps_increase h
  rw [stamps_range, List.pairwise_map, List.pairwise_iff_getElem] at hpair
  intro k hk hmax
  have hlt := hpair k (k + 1) (by simp; omega) (by simpa using hk) (by omega)
  rw [List.getElem_range, List.getElem_range, hmax,
    Int64.lt_iff_toInt_lt] at hlt
  have hle := (stampAt readings (k + 1)).toInt_le
  omega

/-! ## Readings of a calendar -/

/-- The last millisecond that has a date: the end of the year 262142, the
last one that the calendar reaches from which the time is read. -/
def lastMoment : Int64 :=
  8210266876799999

/-- Readings that are dates. -/
def Dated (readings : Nat → Int64) : Prop :=
  ∀ n, readings n ≤ lastMoment

/-- **Behind the last date there is room for `2 ^ 61` stamps.** -/
theorem lasts_of_dated {readings : Nat → Int64} (h : Dated readings) {n : Nat}
    (hn : n ≤ 2 ^ 61) : Lasts readings n := by
  refine lasts_of_roomy fun r hr => ?_
  obtain ⟨k, -, rfl⟩ := List.mem_map.mp hr
  have hdate := Int64.le_iff_toInt_le.mp (h k)
  have hlast : lastMoment.toInt = 8210266876799999 := by decide
  rw [List.length_map, List.length_range]
  omega

end StampClock

end SoloScenario.Output
