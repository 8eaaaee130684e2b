import Arcade8080.Pacing.Pacer
import Arcade8080.Proofs.Numeric.AtLeastOne

/-!
# The budget of a tick

The cap and what a tick wants are compared as numbers, and the fraction of a cycle is dropped only
then. Dropping it first and taking the smaller count comes to the same, also where a tick wants no
number of cycles at all or infinitely many.
-/

namespace Arcade8080.Pacer

variable {p : Pacer} {elapsed : Float}

/-- A tick that wants more than the cap gets the cap, any other one the whole cycles it wants. -/
theorem budget_eq (p : Pacer) (elapsed : Float) :
    p.budget elapsed =
      if p.exceeds elapsed then p.cap else (p.wanted elapsed).toUInt32 := by
  have hmin : p.budget elapsed =
      if p.cap ≤ (p.wanted elapsed).toUInt32 then p.cap else (p.wanted elapsed).toUInt32 := rfl
  rw [hmin]
  by_cases h : p.cap.toFloat < p.wanted elapsed
  · have hexceeds : p.exceeds elapsed = true := decide_eq_true h
    rw [if_pos (le_toUInt32 (float_le_of_lt h)), if_pos hexceeds]
  · have hexceeds : ¬ p.exceeds elapsed = true := fun he => h (of_decide_eq_true he)
    rw [if_neg hexceeds]
    split
    next hle => exact UInt32.le_antisymm hle (toUInt32_le h)
    next => rfl

/-- Time that is worth a cycle gives a budget. -/
theorem budget_pos (hcap : 1 ≤ p.cap) (h : 1 ≤ elapsed * p.rate.toFloat) :
    0 < p.budget elapsed := by
  have hwanted : p.wanted elapsed = elapsed * p.rate.toFloat := by
    rw [wanted, if_pos (pos_of_one_le_mul h)]
  rw [budget_eq, hwanted]
  split
  · exact UInt32.lt_of_lt_of_le (by decide) hcap
  · exact toUInt32_pos h

end Arcade8080.Pacer
