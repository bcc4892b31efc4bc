/-!
# Stamps

Generated files are stamped with the time in milliseconds.  The clock may
stand still or go back between two files, the stamps may not: a reading
that is not beyond the last stamp is replaced by the last stamp plus one,
up to the largest number of 64 bits.
-/

namespace SoloScenario.Output

/-- The last stamp given out, if there was one. -/
structure StampClock where
  last : Option Int64
deriving DecidableEq, Repr

namespace StampClock

/-- A clock that has given out no stamp. -/
def new : StampClock :=
  ⟨none⟩

/-- One more, unless `n` is the largest number. -/
def saturatingSucc (n : Int64) : Int64 :=
  if n = Int64.maxValue then n else n + 1

/-- The stamp for a reading. -/
def stamp (clock : StampClock) (now : Int64) : Int64 :=
  match clock.last with
  | some last => if now ≤ last then saturatingSucc last else now
  | none => now

/-- The clock after a reading. -/
def advance (clock : StampClock) (now : Int64) : StampClock :=
  ⟨some (clock.stamp now)⟩

/-- The stamps for a sequence of readings. -/
def stamps (clock : StampClock) : List Int64 → List Int64
  | [] => []
  | now :: later => clock.stamp now :: (clock.advance now).stamps later

/-- There is a stamp for every reading. -/
theorem length_stamps (clock : StampClock) (readings : List Int64) :
    (clock.stamps readings).length = readings.length := by
  induction readings generalizing clock with
  | nil => rfl
  | cons now later ih => simp [stamps, ih]

end StampClock

end SoloScenario.Output
