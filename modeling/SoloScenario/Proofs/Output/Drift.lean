import Mathlib
import SoloScenario.Proofs.Output.Stamps

/-!
# How far stamps run ahead of the clock

A stamp runs ahead of its reading only as far as the stamps in front of it
force it to: each earlier reading has to be left behind by one for every
stamp given out since.  The largest number that the readings demand in this
way is the **drift** of the sequence, and the stamp is just that, up to the
largest number of 64 bits.

* `toInt_stampOf_succ`, `drift_succ` — how a stamp and the drift go on with
  one more reading, in exact integers;
* `toInt_stampOf` — the stamp is the drift, as far as there are numbers;
* `stamps_drift` — the same, with what follows for the order of stamps.
-/

namespace SoloScenario.Output

namespace StampClock

/-! ## One stamp -/

/-- The last stamp of all as a number. -/
theorem toInt_maxValue : Int64.maxValue.toInt = 2 ^ 63 - 1 := by
  decide

/-- One more, in exact integers. -/
theorem toInt_saturatingSucc_eq_min (n : Int64) :
    (saturatingSucc n).toInt = min (2 ^ 63 - 1) (n.toInt + 1) := by
  by_cases hmax : n = Int64.maxValue
  · subst hmax
    decide
  · have hlt := Int64.lt_iff_toInt_lt.mp (lt_saturatingSucc hmax)
    have hle := (saturatingSucc n).toInt_le
    rw [toInt_maxValue] at hle
    have hsucc := toInt_saturatingSucc (n := n) (by omega)
    omega

/-- A stamp behind another is its reading, or one more than the other if
that is larger. -/
theorem toInt_stamp (last now : Int64) :
    (stamp ⟨some last⟩ now).toInt
      = min (2 ^ 63 - 1) (max now.toInt (last.toInt + 1)) := by
  have hnow := now.toInt_le
  rw [toInt_maxValue] at hnow
  simp only [stamp, Int64.le_iff_toInt_le]
  split
  · rw [toInt_saturatingSucc_eq_min]
    omega
  · omega

/-! ## Stamps and drift of a sequence -/

/-- The stamp for the reading number `k`. -/
def stampOf (readings : List Int64) (k : Fin readings.length) : Int64 :=
  (new.stamps readings).get (k.cast (length_stamps new readings).symm)

/-- The largest of the readings up to number `k`, each of them raised by
the number of stamps given out since. -/
def drift (readings : List Int64) (k : Fin readings.length) : Int :=
  (Finset.Iic k).sup' Finset.nonempty_Iic fun j =>
    readings[j].toInt + ((k : Int) - j)

/-- A finite sequence is the beginning of one that goes on. -/
theorem stampOf_eq_stampAt (readings : List Int64)
    (k : Fin readings.length) :
    stampOf readings k = stampAt (readings.getD · 0) k := by
  have hall : (List.range readings.length).map (readings.getD · 0)
      = readings := by
    refine List.ext_getElem (by simp) fun i hi hi' => ?_
    simp [hi']
  have hstamps := stamps_range (readings.getD · 0) readings.length
  rw [hall] at hstamps
  simp [stampOf, hstamps]

section Sequence

variable {readings : List Int64} {i j k : Fin readings.length}

/-- A reading of the list, and the same one of the list that goes on with
zeros. -/
theorem getElem_eq_getD (k : Fin readings.length) :
    readings[k] = readings.getD k 0 := by
  simp

/-- The first stamp is its reading. -/
theorem stampOf_first (h : (k : Nat) = 0) :
    stampOf readings k = readings[k] := by
  rw [stampOf_eq_stampAt, getElem_eq_getD, h]
  rfl

/-- A stamp behind another one. -/
theorem toInt_stampOf_succ (h : (j : Nat) = i + 1) :
    (stampOf readings j).toInt = min (2 ^ 63 - 1)
      (max readings[j].toInt ((stampOf readings i).toInt + 1)) := by
  rw [stampOf_eq_stampAt, stampOf_eq_stampAt, getElem_eq_getD, h]
  exact toInt_stamp (stampAt (readings.getD · 0) i) (readings.getD (i + 1) 0)

/-- No reading so far, counted on to now, is above the drift. -/
theorem le_drift (h : i ≤ k) :
    readings[i].toInt + ((k : Int) - i) ≤ drift readings k :=
  Finset.le_sup'
    (fun j : Fin readings.length => readings[j].toInt + ((k : Int) - j))
    (Finset.mem_Iic.mpr h)

/-- One of them is the drift. -/
theorem exists_drift (k : Fin readings.length) :
    ∃ i ≤ k, drift readings k = readings[i].toInt + ((k : Int) - i) := by
  obtain ⟨i, hi, hmax⟩ := Finset.exists_mem_eq_sup'
    (Finset.nonempty_Iic (a := k))
    fun j : Fin readings.length => readings[j].toInt + ((k : Int) - j)
  exact ⟨i, Finset.mem_Iic.mp hi, hmax⟩

/-- The first reading demands no more than it says. -/
theorem drift_first (h : (k : Nat) = 0) :
    drift readings k = readings[k].toInt := by
  obtain ⟨i, hi, hmax⟩ := exists_drift k
  obtain rfl : i = k := by omega
  omega

/-- One more reading demands itself, and one more than was demanded
before. -/
theorem drift_succ (h : (j : Nat) = i + 1) :
    drift readings j = max readings[j].toInt (drift readings i + 1) := by
  refine le_antisymm ?_ (max_le ?_ ?_)
  · obtain ⟨k, hk, hmax⟩ := exists_drift j
    by_cases hlast : k = j
    · subst hlast
      omega
    · have hold : readings[k].toInt + ((i : Int) - k) ≤ drift readings i :=
        le_drift (by omega)
      omega
  · have hnew := le_drift (le_refl j)
    omega
  · obtain ⟨k, hk, hmax⟩ := exists_drift i
    have hold : readings[k].toInt + ((j : Int) - k) ≤ drift readings j :=
      le_drift (by omega)
    omega

/-- **A stamp is as large as the readings demand,** and no larger. -/
theorem toInt_stampOf (k : Fin readings.length) :
    (stampOf readings k).toInt = min (2 ^ 63 - 1) (drift readings k) := by
  obtain ⟨n, hn⟩ := k
  induction n with
  | zero =>
      have hle := readings[0].toInt_le
      rw [toInt_maxValue] at hle
      rw [stampOf_first rfl, drift_first rfl]
      exact (min_eq_right hle).symm
  | succ n ih =>
      rw [toInt_stampOf_succ (i := ⟨n, Nat.lt_of_succ_lt hn⟩) rfl,
        drift_succ (i := ⟨n, Nat.lt_of_succ_lt hn⟩) rfl, ih]
      omega

/-- Stamps never decrease. -/
theorem toInt_stampOf_le (h : i ≤ j) :
    (stampOf readings i).toInt ≤ (stampOf readings j).toInt := by
  obtain ⟨k, hk, hmax⟩ := exists_drift i
  have hlater : readings[k].toInt + ((j : Int) - k) ≤ drift readings j :=
    le_drift (by omega)
  rw [toInt_stampOf, toInt_stampOf]
  omega

end Sequence

/-- **The stamps for any readings.**

* Each is the largest number that the readings up to its own demand, as far
  as there are numbers of 64 bits; so none is before its own reading.
* They never decrease, and two in a row are equal only where both are the
  largest number of 64 bits.
* A reading beyond the stamp in front of it is its own stamp. -/
theorem stamps_drift (readings : List Int64) :
    (∀ k, (stampOf readings k).toInt = min (2 ^ 63 - 1) (drift readings k))
      ∧ (∀ k : Fin readings.length, readings[k] ≤ stampOf readings k)
      ∧ (∀ i j, i ≤ j → stampOf readings i ≤ stampOf readings j)
      ∧ (∀ i j : Fin readings.length, (j : Nat) = i + 1 →
        (stampOf readings i = stampOf readings j
          → stampOf readings i = Int64.maxValue
            ∧ stampOf readings j = Int64.maxValue)
        ∧ (stampOf readings i < readings[j] →
          stampOf readings j = readings[j])) := by
  refine ⟨toInt_stampOf, fun k => ?_, fun i j hij => ?_, fun i j hij =>
    ⟨fun hsame => ?_, fun hbeyond => ?_⟩⟩
  · have hown := le_drift (le_refl k)
    have hle := readings[k].toInt_le
    rw [toInt_maxValue] at hle
    rw [Int64.le_iff_toInt_le, toInt_stampOf]
    omega
  · exact Int64.le_iff_toInt_le.mpr (toInt_stampOf_le hij)
  · have hnext := toInt_stampOf_succ hij
    have hmax : stampOf readings j = Int64.maxValue := by
      rw [← Int64.toInt_inj, toInt_maxValue]
      rw [hsame] at hnext
      omega
    exact ⟨hsame.trans hmax, hmax⟩
  · have hnext := toInt_stampOf_succ hij
    have hle := readings[j].toInt_le
    rw [toInt_maxValue] at hle
    rw [Int64.lt_iff_toInt_lt] at hbeyond
    rw [← Int64.toInt_inj, hnext]
    omega

/-- Readings that repeat, go back, jump ahead and come to the end. -/
def Drift.sample : List Int64 :=
  [100, 100, 50, 500, Int64.maxValue, 3]

/-- The reading that went back is run ahead of by two, the jump is taken as
it is, and at the end the last stamp of all is given out twice. -/
theorem stamps_drift_sample :
    (stampOf Drift.sample ⟨2, by decide⟩).toInt
        = min (2 ^ 63 - 1) (drift Drift.sample ⟨2, by decide⟩)
      ∧ drift Drift.sample ⟨2, by decide⟩ = 102
      ∧ stampOf Drift.sample ⟨2, by decide⟩
        < Drift.sample[(⟨3, by decide⟩ : Fin Drift.sample.length)]
      ∧ stampOf Drift.sample ⟨3, by decide⟩ = 500
      ∧ stampOf Drift.sample ⟨4, by decide⟩
        = stampOf Drift.sample ⟨5, by decide⟩
      ∧ stampOf Drift.sample ⟨5, by decide⟩ = Int64.maxValue := by
  obtain ⟨hclosed, -, -, hnext⟩ := stamps_drift Drift.sample
  have hbeyond : stampOf Drift.sample ⟨2, by decide⟩
      < Drift.sample[(⟨3, by decide⟩ : Fin Drift.sample.length)] := by
    decide
  have hsame : stampOf Drift.sample ⟨4, by decide⟩
      = stampOf Drift.sample ⟨5, by decide⟩ := by decide
  exact ⟨hclosed _, by decide, hbeyond, (hnext _ _ rfl).2 hbeyond, hsame,
    ((hnext _ _ rfl).1 hsame).2⟩

end StampClock

end SoloScenario.Output
