import Arcade8080.Numeric.Rounding
import Mathlib.Algebra.Order.Field.Basic
import Mathlib.Algebra.Order.Field.Rat
import Mathlib.Tactic.Linarith

/-!
# The nearest whole number

A fraction has one nearest whole number, if of two that are as near the even one counts. It is the
one that rounding a quotient comes to.
-/

namespace Arcade8080

/-- The whole number is nearest to the fraction; if another one is as near, it is the even one. -/
structure NearestEven (n : Nat) (q : ℚ) : Prop where
  near : |q - n| ≤ 1 / 2
  even : |q - n| = 1 / 2 → n % 2 = 0

theorem NearestEven.unique {m n : Nat} {q : ℚ} (hm : NearestEven m q) (hn : NearestEven n q) :
    m = n := by
  by_contra hne
  wlog hlt : m < n generalizing m n with hsymm
  · exact hsymm hn hm (Ne.symm hne) (by omega)
  obtain ⟨hm₁, hm₂⟩ := abs_le.mp hm.near
  obtain ⟨hn₁, hn₂⟩ := abs_le.mp hn.near
  -- Two different numbers can both be near only if the fraction is halfway between neighbours.
  have hle : n ≤ m + 1 := by
    have : (n : ℚ) ≤ m + 1 := by linarith
    exact_mod_cast this
  have hnext : (n : ℚ) = m + 1 := by exact_mod_cast (show n = m + 1 by omega)
  have hhalf : q = m + 1 / 2 := by linarith
  have hm₀ := hm.even (by rw [hhalf]; norm_num)
  have hn₀ := hn.even (by rw [hhalf, hnext]; norm_num [abs_of_neg])
  omega

/-- A number that is nearest to a fraction below a whole number is not above that one. -/
theorem NearestEven.le_of_lt {n bound : Nat} {q : ℚ} (h : NearestEven n q) (hq : q < bound) :
    n ≤ bound := by
  obtain ⟨hnear, -⟩ := abs_le.mp h.near
  have hlt : (n : ℚ) < bound + 1 := by linarith
  have hlt' : n < bound + 1 := by exact_mod_cast hlt
  omega

/-- Rounding moves a quotient by a whole half only to an even number. -/
theorem roundHalfEven_even {num den : Nat} (hd : 0 < den)
    (h : 2 * num = (2 * roundHalfEven num den + 1) * den ∨
      2 * num + den = 2 * roundHalfEven num den * den) :
    roundHalfEven num den % 2 = 0 := by
  have hsplit := Nat.div_add_mod num den
  have hrest := Nat.mod_lt num hd
  rw [roundHalfEven] at h ⊢
  generalize num / den = below at hsplit h ⊢
  generalize num % den = rest at hsplit hrest h ⊢
  split at h
  next hsmall =>
    rw [if_pos hsmall]
    rcases h with h | h
    · exact absurd (by linarith : 2 * rest = den) hsmall.ne
    · exact absurd (by linarith : 2 * rest + den = 0) (by omega)
  next hlarge =>
    rw [if_neg hlarge]
    split at h
    next heven =>
      rw [if_pos heven]
      exact heven.2
    next hodd =>
      rw [if_neg hodd]
      rcases h with h | h
      · exact absurd (by linarith : 2 * rest = 3 * den) (by omega)
      · have hhalf : 2 * rest = den := by linarith
        have : ¬ below % 2 = 0 := fun heven => hodd ⟨hhalf, heven⟩
        omega

/-- Rounding a quotient finds the nearest whole number. -/
theorem nearestEven_roundHalfEven (num : Nat) {den : Nat} (hd : 0 < den) :
    NearestEven (roundHalfEven num den) (num / den) := by
  have hden : (0 : ℚ) < den := by exact_mod_cast hd
  have heven := @roundHalfEven_even num den hd
  obtain ⟨hlow, hhigh⟩ := roundHalfEven_near num den hd
  generalize roundHalfEven num den = n at heven hlow hhigh ⊢
  have hnear : |(num : ℚ) / den - n| ≤ 1 / 2 := by
    have hlow' : (2 * num : ℚ) ≤ (2 * n + 1) * den := by exact_mod_cast hlow
    have hhigh' : (2 * n * den : ℚ) ≤ 2 * num + den := by exact_mod_cast hhigh
    have hupper : (num : ℚ) / den ≤ n + 1 / 2 := by
      rw [div_le_iff₀ hden]
      linarith
    have hlower : (n : ℚ) - 1 / 2 ≤ num / den := by
      rw [le_div_iff₀ hden]
      linarith
    rw [abs_le]
    exact ⟨by linarith, by linarith⟩
  refine ⟨hnear, fun hhalf => heven ?_⟩
  rcases (abs_eq (by norm_num)).mp hhalf with h | h
  · left
    have hnum : (num : ℚ) = (n + 1 / 2) * den := (div_eq_iff hden.ne').mp (by linarith)
    have htwice : (2 * num : ℚ) = (2 * n + 1) * den := by linarith
    exact_mod_cast htwice
  · right
    have hnum : (num : ℚ) = (n - 1 / 2) * den := (div_eq_iff hden.ne').mp (by linarith)
    have htwice : (2 * num + den : ℚ) = 2 * n * den := by linarith
    exact_mod_cast htwice

end Arcade8080
