import Arcade8080.Arithmetic.Byte
import Arcade8080.Arithmetic.Decimal

/-!
# Packed decimal bytes

A byte with a decimal digit in each half. When two of them are added as binary numbers, the
lower digits and the upper ones add up to two sums that have not been carried yet. The
accumulator and its two carries still tell what these sums were, as long as they are no
greater than two digits and a carry can make them, and the adjustment carries them: the lower
sum first, then the upper one.
-/

namespace Arcade8080

/-- Both halves of the byte are decimal digits. -/
def PackedDecimal (v : UInt8) : Prop := v.toNat / 16 ≤ 9 ∧ v.toNat % 16 ≤ 9

instance (v : UInt8) : Decidable (PackedDecimal v) := inferInstanceAs (Decidable (_ ∧ _))

/-- The number with these two digits. -/
def decimalValue (v : UInt8) : Nat := 10 * (v.toNat / 16) + v.toNat % 16

namespace Arithmetic

/-- The accumulator and the flags show the sum of digits `upper` and the sum `lower`. -/
structure ShowsSums (upper lower : Nat) (r : UInt8 × Flags) : Prop where
  byte : r.1.toNat = (16 * upper + lower) % 256
  carry : r.2.carry = decide (256 ≤ 16 * upper + lower)
  auxCarry : r.2.auxCarry = decide (16 ≤ lower)

/-- A sum of bytes shows the sums of their halves; the carry counts as part of the lower one. -/
theorem add_showsSums (a v : UInt8) (carry : Bool) :
    ShowsSums (a.toNat / 16 + v.toNat / 16) (a.toNat % 16 + v.toNat % 16 + carry.toNat)
      (add a v carry) := by
  have hsum : 16 * (a.toNat / 16 + v.toNat / 16) + (a.toNat % 16 + v.toNat % 16 + carry.toNat) =
      a.toNat + v.toNat + carry.toNat := by omega
  refine ⟨?_, ?_, rfl⟩
  · rw [hsum]
    exact UInt8.toNat_ofNat'
  · rw [hsum]
    rfl

/-- A difference without a borrow from either half. -/
theorem subtract_halves {a v : UInt8} (upper : v.toNat / 16 ≤ a.toNat / 16)
    (lower : v.toNat % 16 ≤ a.toNat % 16) :
    (subtract a v false).1.toNat / 16 = a.toNat / 16 - v.toNat / 16 ∧
      (subtract a v false).1.toNat % 16 = a.toNat % 16 - v.toNat % 16 := by
  have ha := a.toNat_lt
  have hr : (subtract a v false).1.toNat = (a.toNat + 512 - (v.toNat + 0)) % 256 :=
    UInt8.toNat_ofNat'
  rw [hr]
  constructor <;> omega

/-! ## The two steps of the adjustment -/

/-- The first step leaves the lower digit, and carries into the upper sum. -/
theorem adjustLower_sums {a : UInt8} {upper lower : Nat}
    (ha : a.toNat = (16 * upper + lower) % 256) (hu : upper ≤ 18) (hl : lower ≤ 19) :
    (adjustLower a (decide (16 ≤ lower))).1.toNat =
        (16 * (upper + lower / 10) + lower % 10) % 256 ∧
      (decide (256 ≤ 16 * upper + lower) || (adjustLower a (decide (16 ≤ lower))).2.1) =
        decide (16 ≤ upper + lower / 10) := by
  have hmod : a.toNat % 16 = lower % 16 := by omega
  unfold adjustLower
  by_cases hten : 10 ≤ lower
  · -- A sum of ten to fifteen is no digit; one of sixteen and more has set the carry.
    have hadd : (a + 0x06).toNat = (a.toNat + 6) % 256 := UInt8.toNat_add a 0x06
    rw [if_pos (by simp only [Bool.or_eq_true, decide_eq_true_eq]; omega)]
    refine ⟨?_, ?_⟩
    · show (a + 0x06).toNat = _
      omega
    · simp only [← Bool.decide_or, decide_eq_decide]
      omega
  · rw [if_neg (by simp only [Bool.or_eq_true, decide_eq_true_eq]; omega)]
    refine ⟨?_, ?_⟩
    · show a.toNat = _
      omega
    · simp only [Bool.or_false, decide_eq_decide]
      omega

/-- The second step leaves the upper digit, and carries out of the byte. -/
theorem adjustUpper_sums {a : UInt8} {upper lower : Nat}
    (ha : a.toNat = (16 * upper + lower) % 256) (hu : upper ≤ 19) (hl : lower ≤ 9) :
    (adjustUpper a (decide (16 ≤ upper))).1.toNat = 16 * (upper % 10) + lower ∧
      (decide (16 ≤ upper) || (adjustUpper a (decide (16 ≤ upper))).2) =
        decide (10 ≤ upper) := by
  unfold adjustUpper
  by_cases hten : 10 ≤ upper
  · have hadd : (a + 0x60).toNat = (a.toNat + 96) % 256 := UInt8.toNat_add a 0x60
    rw [if_pos (by simp only [Bool.or_eq_true, decide_eq_true_eq]; omega)]
    refine ⟨?_, ?_⟩
    · show (a + 0x60).toNat = _
      omega
    · simp only [← Bool.decide_or, decide_eq_decide]
      omega
  · rw [if_neg (by simp only [Bool.or_eq_true, decide_eq_true_eq]; omega)]
    refine ⟨?_, ?_⟩
    · show a.toNat = _
      omega
    · simp only [Bool.or_false, decide_eq_decide]
      omega

/-- The adjustment carries the two sums: it leaves two digits, and a carry that counts as a
hundred. -/
theorem decimalAdjust_sums {upper lower : Nat} {a : UInt8} {f : Flags}
    (h : ShowsSums upper lower (a, f)) (hu : upper ≤ 18) (hl : lower ≤ 19) :
    PackedDecimal (decimalAdjust f a).1 ∧
      decimalValue (decimalAdjust f a).1 + 100 * (decimalAdjust f a).2.carry.toNat =
        10 * upper + lower := by
  obtain ⟨hbyte, hcarry⟩ := adjustLower_sums h.byte hu hl
  rw [← h.carry, ← h.auxCarry] at hcarry
  rw [← h.auxCarry] at hbyte
  obtain ⟨hresult, hover⟩ := adjustUpper_sums hbyte (by omega) (by omega)
  rw [← hcarry] at hresult hover
  -- Carry and byte of the whole adjustment are those of the second step after the first.
  have hr : (decimalAdjust f a).1.toNat = 16 * ((upper + lower / 10) % 10) + lower % 10 := hresult
  have hc : (decimalAdjust f a).2.carry = decide (10 ≤ upper + lower / 10) := hover
  refine ⟨?_, ?_⟩
  · unfold PackedDecimal
    omega
  · rw [decimalValue, hc, hr]
    by_cases hten : 10 ≤ upper + lower / 10
    · rw [decide_eq_true hten, Bool.toNat_true]
      omega
    · rw [decide_eq_false hten, Bool.toNat_false]
      omega

end Arithmetic

end Arcade8080
