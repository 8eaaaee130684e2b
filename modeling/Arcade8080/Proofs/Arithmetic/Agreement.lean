import Arcade8080.Arithmetic.Byte

/-!
# One rule behind several operations

Sums, differences and counts each have a formula of their own for the auxiliary carry. They
follow one rule: a difference adds the complement, and counting adds or takes one.
-/

namespace Arcade8080

namespace Arithmetic

/-- The same byte and the same flags, but for the carry. -/
def withCarry (carry : Bool) (r : UInt8 × Flags) : UInt8 × Flags :=
  (r.1, { r.2 with carry := carry })

def invertCarry (r : UInt8 × Flags) : UInt8 × Flags := withCarry (!r.2.carry) r

theorem toNat_complement (v : UInt8) : (~~~v).toNat = 255 - v.toNat :=
  UInt8.toNat_not v

/-- A difference is the sum with the complement. A borrow goes in and out as no carry. -/
theorem subtract_eq_add (a v : UInt8) (borrow : Bool) :
    subtract a v borrow = invertCarry (add a (~~~v) (!borrow)) := by
  have ha := a.toNat_lt
  have hv := v.toNat_lt
  have hn := toNat_complement v
  have hb : (!borrow).toNat + borrow.toNat = 1 := by cases borrow <;> rfl
  have hresult : (subtract a v borrow).1 = (add a (~~~v) (!borrow)).1 := by
    apply UInt8.toNat_inj.mp
    have hs : (subtract a v borrow).1.toNat =
        (a.toNat + 512 - (v.toNat + borrow.toNat)) % 256 := UInt8.toNat_ofNat'
    have hr : (add a (~~~v) (!borrow)).1.toNat =
        (a.toNat + (~~~v).toNat + (!borrow).toNat) % 256 := UInt8.toNat_ofNat'
    omega
  have hcarry : decide (a.toNat < v.toNat + borrow.toNat) =
      !decide (256 ≤ a.toNat + (~~~v).toNat + (!borrow).toNat) := by
    rw [← decide_not, decide_eq_decide]
    omega
  have hhalf : decide (v.toNat % 16 + borrow.toNat ≤ a.toNat % 16) =
      decide (16 ≤ a.toNat % 16 + (~~~v).toNat % 16 + (!borrow).toNat) := by
    rw [decide_eq_decide]
    omega
  have hflags : (subtract a v borrow).2 = (invertCarry (add a (~~~v) (!borrow))).2 := by
    show Flags.after (subtract a v borrow).1 _ _ = _
    rw [hresult, hcarry, hhalf]
    rfl
  exact Prod.ext hresult hflags

/-- Counting up adds one, and keeps the carry. -/
theorem increment_eq_add (f : Flags) (v : UInt8) :
    increment f v = withCarry f.carry (add v 1 false) := by
  have hresult : v + 1 = (add v 1 false).1 := by
    apply UInt8.toNat_inj.mp
    exact (UInt8.toNat_add v 1).trans UInt8.toNat_ofNat'.symm
  have hhalf : (v.toNat % 16 == 15) = decide (16 ≤ v.toNat % 16 + 1 % 16 + 0) := by
    rw [Bool.eq_iff_iff, beq_iff_eq, decide_eq_true_iff]
    omega
  have hflags : (increment f v).2 = (withCarry f.carry (add v 1 false)).2 := by
    show ({ f.describe (v + 1) with auxCarry := v.toNat % 16 == 15 } : Flags) = _
    rw [hresult, hhalf]
    rfl
  exact Prod.ext hresult hflags

/-- Counting down takes one, and keeps the carry. -/
theorem decrement_eq_subtract (f : Flags) (v : UInt8) :
    decrement f v = withCarry f.carry (subtract v 1 false) := by
  have hv := v.toNat_lt
  have hcount : (v - 1).toNat = (256 - 1 + v.toNat) % 256 := UInt8.toNat_sub v 1
  have hresult : v - 1 = (subtract v 1 false).1 := by
    apply UInt8.toNat_inj.mp
    have hr : (subtract v 1 false).1.toNat = (v.toNat + 512 - (1 + 0)) % 256 := UInt8.toNat_ofNat'
    omega
  have hhalf : ((v - 1).toNat % 16 != 15) = decide (1 % 16 + 0 ≤ v.toNat % 16) := by
    rw [Bool.eq_iff_iff, bne_iff_ne, decide_eq_true_iff]
    omega
  have hflags : (decrement f v).2 = (withCarry f.carry (subtract v 1 false)).2 := by
    show ({ f.describe (v - 1) with auxCarry := (v - 1).toNat % 16 != 15 } : Flags) = _
    rw [hhalf, hresult]
    rfl
  exact Prod.ext hresult hflags

/-- Rotating to the left through the carry doubles the byte and adds the carry. -/
theorem rotate_eq_add (carry : Bool) (a : UInt8) :
    Rotation.leftThroughCarry.apply carry a = ((add a a carry).1, (add a a carry).2.carry) := by
  have ha := a.toNat_lt
  have hc := carry.toNat_le
  have hbit : bit a 7 = decide (256 ≤ a.toNat + a.toNat + carry.toNat) := by
    rw [bit, Nat.testBit_eq_decide_div_mod_eq, decide_eq_decide]
    omega
  show (UInt8.ofNat (2 * a.toNat + carry.toNat), bit a 7) =
    (UInt8.ofNat (a.toNat + a.toNat + carry.toNat), _)
  rw [hbit, Nat.two_mul]
  rfl

/-- Doubling a word shifts it to the left, and the bit shifted out is the carry. -/
theorem double_eq_shift (w : UInt16) :
    UInt16.ofNat (w.toNat + w.toNat) = w <<< 1 ∧
      decide (65536 ≤ w.toNat + w.toNat) = w.toNat.testBit 15 := by
  have hw := w.toNat_lt
  constructor
  · apply UInt16.toNat_inj.mp
    rw [UInt16.toNat_ofNat', UInt16.toNat_shiftLeft]
    show (w.toNat + w.toNat) % 65536 = w.toNat <<< 1 % 65536
    rw [Nat.shiftLeft_eq, ← Nat.mul_two]
  · rw [Nat.testBit_eq_decide_div_mod_eq, decide_eq_decide]
    omega

end Arithmetic

end Arcade8080
