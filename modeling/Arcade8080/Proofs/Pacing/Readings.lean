/-!
# Readings of the clock

A timer and a pacer remember little of the clock: the first reading they were given, and the last
one at which something came about. Here both are read off the whole list of readings, the first
one first, with what came of each.
-/

namespace Arcade8080

/-- A reading of the clock, and what came of it. -/
structure ClockReading (α : Type) where
  now : Float
  result : α

namespace ClockReading

variable {α : Type} {counts : α → Bool} {r : ClockReading α}

/-- The readings with a result that counts. -/
def counted (counts : α → Bool) (rs : List (ClockReading α)) : List Float :=
  (rs.filter fun r => counts r.result).map ClockReading.now

/-- The first reading. If there was none before, it is the one at `now`. -/
def first (rs : List (ClockReading α)) (now : Float) : Float :=
  (rs.head?.map ClockReading.now).getD now

theorem counted_append_of_counts (rs : List (ClockReading α)) (h : counts r.result = true) :
    counted counts (rs ++ [r]) = counted counts rs ++ [r.now] := by
  simp [counted, h]

theorem counted_append_of_not_counts (rs : List (ClockReading α)) (h : counts r.result = false) :
    counted counts (rs ++ [r]) = counted counts rs := by
  simp [counted, h]

/-- Once there is a reading, the first one stays. -/
theorem first_append (rs : List (ClockReading α)) (now : Float) :
    first (rs ++ [r]) now = first rs r.now := by
  cases rs <;> rfl

end ClockReading

end Arcade8080
