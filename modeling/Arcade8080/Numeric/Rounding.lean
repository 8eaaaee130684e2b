/-!
# Rounding a quotient

The nearest natural number to a quotient. A quotient halfway between two numbers
goes to the even one.
-/

namespace Arcade8080

def roundHalfEven (num den : Nat) : Nat :=
  let below := num / den
  let rest := num % den
  if 2 * rest < den then below
  else if 2 * rest = den ∧ below % 2 = 0 then below
  else below + 1

/-- Rounding moves a quotient by half a unit at most. -/
theorem roundHalfEven_near (num den : Nat) (hd : 0 < den) :
    2 * num ≤ (2 * roundHalfEven num den + 1) * den ∧
      (2 * roundHalfEven num den) * den ≤ 2 * num + den := by
  have h := Nat.div_add_mod num den
  have hr := Nat.mod_lt num hd
  have hm : 2 * (num / den) * den = 2 * (den * (num / den)) := by
    rw [Nat.mul_assoc, Nat.mul_comm (num / den)]
  unfold roundHalfEven
  simp only
  split
  · constructor
    · rw [Nat.add_mul, hm]; omega
    · omega
  · split
    · constructor
      · rw [Nat.add_mul, hm]; omega
      · omega
    · have hs : 2 * (num / den + 1) * den = 2 * (den * (num / den)) + 2 * den := by
        rw [Nat.mul_add, Nat.add_mul, hm]
      constructor
      · rw [Nat.add_mul, hs]; omega
      · omega

end Arcade8080
