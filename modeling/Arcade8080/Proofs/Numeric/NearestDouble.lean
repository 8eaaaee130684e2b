import Arcade8080.Numeric.DecimalText
import Arcade8080.Proofs.Numeric.NearestEven
import Mathlib.Algebra.Order.Field.Power
import Mathlib.Tactic.NormNum
import Mathlib.Tactic.Ring

/-!
# Doubles as numbers

A finite double has a value. The mantissa of a double that is nearest to a fraction takes no more
than 53 bits, so the product with a whole number is rounded only where the double is small, and
it is below `2 ^ 64` times that number just when the double is below `2 ^ 64`.
-/

namespace Arcade8080

namespace Dyadic

def value (d : Dyadic) : ℚ := d.mantissa * 2 ^ d.exponent

theorem value_nonneg (d : Dyadic) : 0 ≤ d.value :=
  mul_nonneg (Nat.cast_nonneg d.mantissa) (zpow_nonneg two_pos.le _)

theorem value_eq_zero_iff (d : Dyadic) : d.value = 0 ↔ d.mantissa = 0 := by
  rw [value, mul_eq_zero, or_iff_left (zpow_ne_zero _ two_ne_zero), Nat.cast_eq_zero]

/-- A power of two with a natural number as its exponent, or one over such a power. -/
theorem zpow_cases (e : Int) :
    (0 ≤ e ∧ (2 : ℚ) ^ e = (2 ^ e.toNat : Nat)) ∨
      (e < 0 ∧ (2 : ℚ) ^ e = ((2 ^ (-e).toNat : Nat) : ℚ)⁻¹) := by
  rcases le_or_gt 0 e with he | he
  · refine Or.inl ⟨he, ?_⟩
    rw [Nat.cast_pow, Nat.cast_ofNat, ← zpow_natCast, Int.toNat_of_nonneg he]
  · refine Or.inr ⟨he, ?_⟩
    rw [Nat.cast_pow, Nat.cast_ofNat, ← zpow_natCast, Int.toNat_of_nonneg (by omega), zpow_neg,
      inv_inv]

/-- The value of a double times a whole number, rounded once. -/
theorem nearestEven_times (d : Dyadic) (factor : Nat) :
    NearestEven (d.times factor) (d.value * factor) := by
  rw [times, value]
  rcases zpow_cases d.exponent with ⟨he, hpow⟩ | ⟨he, hpow⟩
  · rw [if_pos he, hpow, Nat.shiftLeft_eq]
    have hexact : (d.mantissa * (2 ^ d.exponent.toNat : Nat) * factor : ℚ) =
        (d.mantissa * factor * 2 ^ d.exponent.toNat : Nat) := by
      push_cast
      ring
    rw [hexact]
    exact ⟨by norm_num, fun h => by norm_num at h⟩
  · rw [if_neg (not_le.mpr he), hpow, Nat.one_shiftLeft]
    have hquotient : (d.mantissa * ((2 ^ (-d.exponent).toNat : Nat) : ℚ)⁻¹ * factor : ℚ) =
        (d.mantissa * factor : Nat) / (2 ^ (-d.exponent).toNat : Nat) := by
      rw [Nat.cast_mul, div_eq_mul_inv]
      ring
    rw [hquotient]
    exact nearestEven_roundHalfEven _ (Nat.two_pow_pos _)

/-- The fraction in units of a power of two, rounded once. -/
theorem nearestEven_scale (num : Nat) {den : Nat} (hd : 0 < den) (e : Int) :
    NearestEven (scale num den e) (num / den / 2 ^ e) := by
  rw [scale]
  rcases zpow_cases e with ⟨he, hpow⟩ | ⟨he, hpow⟩
  · rw [if_pos he, hpow, Nat.shiftLeft_eq, div_div, ← Nat.cast_mul]
    exact nearestEven_roundHalfEven _ (Nat.mul_pos hd (Nat.two_pow_pos _))
  · rw [if_neg (not_le.mpr he), hpow, Nat.shiftLeft_eq, div_inv_eq_mul, div_mul_eq_mul_div,
      ← Nat.cast_mul]
    exact nearestEven_roundHalfEven _ hd

/-- The binary logarithms bound a fraction. -/
theorem div_lt_zpow_log2 (num : Nat) {den : Nat} (hd : den ≠ 0) :
    (num : ℚ) / den < 2 ^ ((num.log2 : Int) - den.log2 + 1) := by
  have hden : (0 : ℚ) < den := by exact_mod_cast Nat.pos_of_ne_zero hd
  have hnum : (num : ℚ) < 2 ^ (num.log2 + 1) := by exact_mod_cast Nat.lt_log2_self
  have hlow : (2 : ℚ) ^ den.log2 ≤ den := by exact_mod_cast Nat.log2_self_le hd
  rw [div_lt_iff₀ hden]
  calc (num : ℚ) < 2 ^ (num.log2 + 1) := hnum
    _ = 2 ^ ((num.log2 : Int) - den.log2 + 1) * 2 ^ den.log2 := by
      rw [← zpow_natCast, ← zpow_natCast, ← zpow_add₀ two_ne_zero]
      congr 1
      omega
    _ ≤ 2 ^ ((num.log2 : Int) - den.log2 + 1) * den :=
      mul_le_mul_of_nonneg_left hlow (zpow_nonneg two_pos.le _)

/-- The test of the guessed exponent finds out whether it leaves fewer than 53 bits. -/
theorem lt_of_short {num den : Nat} (hd : den ≠ 0) {guess : Int}
    (h : (if 0 ≤ guess then decide (num < (den <<< (52 + guess.toNat)))
      else decide ((num <<< (-guess).toNat) < (den <<< 52))) = true) :
    (num : ℚ) / den < 2 ^ (52 + guess) := by
  have hden : (0 : ℚ) < den := by exact_mod_cast Nat.pos_of_ne_zero hd
  rw [div_lt_iff₀ hden, zpow_add₀ two_ne_zero, zpow_ofNat]
  rcases zpow_cases guess with ⟨he, hpow⟩ | ⟨he, hpow⟩
  · rw [if_pos he, decide_eq_true_eq, Nat.shiftLeft_eq, pow_add] at h
    rw [hpow, mul_comm]
    exact_mod_cast h
  · rw [if_neg (not_le.mpr he), decide_eq_true_eq, Nat.shiftLeft_eq, Nat.shiftLeft_eq] at h
    have hpos : (0 : ℚ) < (2 ^ (-guess).toNat : Nat) := by exact_mod_cast Nat.two_pow_pos _
    rw [hpow, mul_right_comm, ← div_eq_mul_inv, lt_div_iff₀ hpos, mul_comm (2 ^ 52 : ℚ)]
    exact_mod_cast h

/-- The exponent chosen for a fraction leaves it 53 bits before the point at most. -/
theorem lt_exponentFor {num den : Nat} (hd : den ≠ 0) :
    (num : ℚ) / den < 2 ^ (53 + exponentFor num den) := by
  have hguess := div_lt_zpow_log2 num hd
  rw [show (num.log2 : Int) - den.log2 + 1 = 53 + (num.log2 - den.log2 - 52) by omega] at hguess
  rw [exponentFor]
  generalize (num.log2 : Int) - den.log2 - 52 = guess at hguess
  -- The larger of two exponents leaves no more bits than the other one.
  have hmono : ∀ e, (num : ℚ) / den < 2 ^ (53 + e) →
      (num : ℚ) / den < 2 ^ (53 + max minExponent e) := fun e h =>
    h.trans_le (zpow_le_zpow_right₀ one_le_two (by omega))
  apply hmono
  generalize hshort : (ite (0 ≤ guess) _ _ : Bool) = short
  cases short with
  | false => exact hguess
  | true =>
    have hlt := lt_of_short hd hshort
    rwa [show 52 + guess = 53 + (guess - 1) by omega] at hlt

theorem mantissa_le_of_nearest {num den : Nat} (hd : den ≠ 0) {d : Dyadic}
    (h : nearest num den = some d) : d.mantissa ≤ 2 ^ 53 := by
  rw [nearest] at h
  split at h
  next => simp [← Option.some.inj h]
  next =>
    simp only [Option.ite_none_left_eq_some] at h
    rw [← Option.some.inj h.2]
    apply (nearestEven_scale num (Nat.pos_of_ne_zero hd) _).le_of_lt
    rw [div_lt_iff₀ (zpow_pos two_pos _), Nat.cast_pow, Nat.cast_ofNat, ← zpow_natCast,
      ← zpow_add₀ two_ne_zero]
    exact lt_exponentFor hd

/-- A rounded product is below a bound that leaves room for the mantissa just when the value is. -/
theorem times_lt_iff {d : Dyadic} (hm : d.mantissa ≤ 2 ^ 53) {factor : Nat} (hf : 0 < factor) :
    d.times factor < (factor <<< 64) ↔ d.value < 2 ^ 64 := by
  have hfactor : (0 : ℚ) < factor := by exact_mod_cast hf
  rw [Nat.shiftLeft_eq]
  rcases zpow_cases d.exponent with ⟨he, hpow⟩ | ⟨he, hpow⟩
  · rw [times, if_pos he, value, hpow, Nat.shiftLeft_eq, mul_right_comm, mul_comm factor,
      Nat.mul_lt_mul_right hf]
    exact_mod_cast Iff.rfl
  · have hle : d.value ≤ 2 ^ 53 := by
      have hmantissa : (d.mantissa : ℚ) ≤ 2 ^ 53 := by exact_mod_cast hm
      have hone : (1 : ℚ) ≤ (2 ^ (-d.exponent).toNat : Nat) := by exact_mod_cast Nat.one_le_two_pow
      rw [value, hpow]
      exact (mul_le_of_le_one_right (Nat.cast_nonneg _) (inv_le_one_of_one_le₀ hone)).trans
        hmantissa
    have htimes : d.times factor ≤ 2 ^ 63 * factor := by
      apply (nearestEven_times d factor).le_of_lt
      rw [Nat.cast_mul, Nat.cast_pow, Nat.cast_ofNat]
      exact mul_lt_mul_of_pos_right (hle.trans_lt (by norm_num)) hfactor
    refine iff_of_true (htimes.trans_lt ?_) (hle.trans_lt (by norm_num))
    rw [mul_comm factor]
    exact Nat.mul_lt_mul_of_pos_right (by norm_num) hf

end Dyadic

end Arcade8080
