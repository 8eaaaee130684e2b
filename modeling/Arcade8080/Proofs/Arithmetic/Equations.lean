import Arcade8080.Arithmetic.Byte
import Mathlib.Algebra.Group.Nat.Even

/-!
# Byte arithmetic as equations

What a byte operation leaves is settled by equations between natural numbers: the result and
the carry, weighed with what a carry out of the byte is worth, balance the operands, and the
auxiliary carry tells whether the lower halves alone come to sixteen. The remaining flags look
at the result only. Each notion here determines the result and all five flags.
-/

namespace Arcade8080

/-- Zero, sign and parity tell of a byte that it is zero, that its upper bit is set, and that
the number of its ones is even. -/
structure Flags.Describes (f : Flags) (result : UInt8) : Prop where
  zero : f.zero = true ↔ result.toNat = 0
  sign : f.sign = bit result 7
  parity : f.parity = true ↔ Even ((List.range 8).countP (bit result))

/-- The result and the flags make the sum of two bytes and a carry. -/
structure IsSum (a v : UInt8) (carry : Bool) (result : UInt8) (f : Flags) : Prop where
  balance : result.toNat + 256 * f.carry.toNat = a.toNat + v.toNat + carry.toNat
  auxCarry : f.auxCarry = true ↔ 16 ≤ a.toNat % 16 + v.toNat % 16 + carry.toNat
  describes : f.Describes result

/-- The result and the flags make the difference of two bytes and a borrow. The auxiliary
carry is set where the lower half does not borrow. -/
structure IsDifference (a v : UInt8) (borrow : Bool) (result : UInt8) (f : Flags) : Prop where
  balance : (result.toNat : Int) - 256 * f.carry.toNat = a.toNat - v.toNat - borrow.toNat
  auxCarry : f.auxCarry = true ↔ v.toNat % 16 + borrow.toNat ≤ a.toNat % 16
  describes : f.Describes result

/-- Every bit of the result combines the two bits in its place. -/
structure IsBitwise (combine : Bool → Bool → Bool) (a v : UInt8) (auxCarry : Bool)
    (result : UInt8) (f : Flags) : Prop where
  bits : ∀ k, bit result k = combine (bit a k) (bit v k)
  carry : f.carry = false
  auxCarry : f.auxCarry = auxCarry
  describes : f.Describes result

/-- The result is `step` further than the byte, counted round the byte, and the carry is what
it was. -/
structure IsCount (step : Nat) (auxCarry : Prop) (v : UInt8) (carry : Bool) (result : UInt8)
    (f : Flags) : Prop where
  count : result.toNat = (v.toNat + step) % 256
  auxCarry : f.auxCarry = true ↔ auxCarry
  carry : f.carry = carry
  describes : f.Describes result

/-- What the accumulator and the flags are to be after an operation with `v`. A comparison
leaves the flags of a difference, and the accumulator alone. -/
def ByteOperation.Equations (operation : ByteOperation) (a v : UInt8) (carry : Bool)
    (result : UInt8) (f : Flags) : Prop :=
  match operation with
  | .add => IsSum a v false result f
  | .addCarry => IsSum a v carry result f
  | .subtract => IsDifference a v false result f
  | .subtractBorrow => IsDifference a v carry result f
  | .and => IsBitwise Bool.and a v (bit a 3 || bit v 3) result f
  | .xor => IsBitwise Bool.xor a v false result f
  | .or => IsBitwise Bool.or a v false result f
  | .compare => result = a ∧ ∃ difference, IsDifference a v false difference f

/-! ## Flags -/

theorem countOnes_eq (v : UInt8) : countOnes v = (List.range 8).countP (bit v) :=
  forall_byte (P := fun v => countOnes v = (List.range 8).countP (bit v)) (by decide +kernel) v

theorem evenParity_iff (v : UInt8) :
    evenParity v = true ↔ Even ((List.range 8).countP (bit v)) := by
  rw [evenParity, beq_iff_eq, countOnes_eq, Nat.even_iff]

theorem Flags.describes_describe (f : Flags) (result : UInt8) :
    (f.describe result).Describes result := by
  refine ⟨?_, rfl, evenParity_iff result⟩
  show (result == 0) = true ↔ result.toNat = 0
  rw [beq_iff_eq, ← UInt8.toNat_inj]
  rfl

theorem Flags.describes_after (result : UInt8) (carry auxCarry : Bool) :
    (after result carry auxCarry).Describes result :=
  have h := ({} : Flags).describes_describe result
  ⟨h.zero, h.sign, h.parity⟩

namespace Arithmetic

/-! ## Sums and differences -/

/-- A carry makes up for what a sum of two summands loses where it is cut off. -/
theorem carry_balance {base sum : Nat} (h : sum < 2 * base) :
    sum % base + base * (decide (base ≤ sum)).toNat = sum := by
  by_cases hb : base ≤ sum
  · have hrest : sum - base < base := by omega
    rw [decide_eq_true hb, Bool.toNat_true, Nat.mul_one, Nat.mod_eq_sub_mod hb,
      Nat.mod_eq_of_lt hrest, Nat.sub_add_cancel hb]
  · rw [decide_eq_false hb, Bool.toNat_false, Nat.mul_zero, Nat.add_zero,
      Nat.mod_eq_of_lt (Nat.lt_of_not_le hb)]

theorem add_balance (a v : UInt8) (carry : Bool) :
    (add a v carry).1.toNat + 256 * (add a v carry).2.carry.toNat =
      a.toNat + v.toNat + carry.toNat := by
  have ha := a.toNat_lt
  have hv := v.toNat_lt
  have hc := carry.toNat_le
  have hresult : (add a v carry).1.toNat = (a.toNat + v.toNat + carry.toNat) % 256 :=
    UInt8.toNat_ofNat'
  have hcarry : (add a v carry).2.carry = decide (256 ≤ a.toNat + v.toNat + carry.toNat) := rfl
  rw [hresult, hcarry]
  exact carry_balance (by omega)

theorem isSum_add (a v : UInt8) (carry : Bool) :
    IsSum a v carry (add a v carry).1 (add a v carry).2 :=
  ⟨add_balance a v carry, decide_eq_true_iff, Flags.describes_after _ _ _⟩

theorem subtract_balance (a v : UInt8) (borrow : Bool) :
    ((subtract a v borrow).1.toNat : Int) - 256 * (subtract a v borrow).2.carry.toNat =
      a.toNat - v.toNat - borrow.toNat := by
  have ha := a.toNat_lt
  have hv := v.toNat_lt
  have hb := borrow.toNat_le
  have hresult : (subtract a v borrow).1.toNat =
      (a.toNat + 512 - (v.toNat + borrow.toNat)) % 256 := UInt8.toNat_ofNat'
  have hcarry : (subtract a v borrow).2.carry = decide (a.toNat < v.toNat + borrow.toNat) := rfl
  rw [hresult, hcarry]
  by_cases h : a.toNat < v.toNat + borrow.toNat
  · rw [decide_eq_true h, Bool.toNat_true]
    omega
  · rw [decide_eq_false h, Bool.toNat_false]
    omega

theorem isDifference_subtract (a v : UInt8) (borrow : Bool) :
    IsDifference a v borrow (subtract a v borrow).1 (subtract a v borrow).2 :=
  ⟨subtract_balance a v borrow, decide_eq_true_iff, Flags.describes_after _ _ _⟩

/-! ## Bitwise operations -/

theorem bit_and (a v : UInt8) (k : Nat) : bit (a &&& v) k = (bit a k && bit v k) := by
  rw [bit, UInt8.toNat_and, Nat.testBit_and]
  rfl

theorem bit_or (a v : UInt8) (k : Nat) : bit (a ||| v) k = (bit a k || bit v k) := by
  rw [bit, UInt8.toNat_or, Nat.testBit_or]
  rfl

theorem bit_xor (a v : UInt8) (k : Nat) : bit (a ^^^ v) k = Bool.xor (bit a k) (bit v k) := by
  rw [bit, UInt8.toNat_xor, Nat.testBit_xor]
  rfl

theorem isBitwise_conjoin (a v : UInt8) :
    IsBitwise Bool.and a v (bit a 3 || bit v 3) (conjoin a v).1 (conjoin a v).2 :=
  ⟨bit_and a v, rfl, bit_or a v 3, Flags.describes_after _ _ _⟩

theorem isBitwise_settle {combine : Bool → Bool → Bool} {a v result : UInt8}
    (h : ∀ k, bit result k = combine (bit a k) (bit v k)) :
    IsBitwise combine a v false (settle result).1 (settle result).2 :=
  ⟨h, rfl, rfl, Flags.describes_after _ _ _⟩

/-! ## Counting -/

theorem isCount_increment (f : Flags) (v : UInt8) :
    IsCount 1 (v.toNat % 16 = 15) v f.carry (increment f v).1 (increment f v).2 := by
  have h := f.describes_describe (v + 1)
  exact ⟨UInt8.toNat_add v 1, beq_iff_eq, rfl, h.zero, h.sign, h.parity⟩

theorem isCount_decrement (f : Flags) (v : UInt8) :
    IsCount 255 (v.toNat % 16 ≠ 0) v f.carry (decrement f v).1 (decrement f v).2 := by
  have h := f.describes_describe (v - 1)
  have hresult : (v - 1).toNat = (v.toNat + 255) % 256 := by
    rw [UInt8.toNat_sub, Nat.add_comm]
    rfl
  refine ⟨hresult, ?_, rfl, h.zero, h.sign, h.parity⟩
  show ((v - 1).toNat % 16 != 15) = true ↔ _
  rw [bne_iff_ne, hresult]
  omega

end Arithmetic

/-- The operations solve their equations. -/
theorem ByteOperation.equations_apply (operation : ByteOperation) (f : Flags) (a v : UInt8) :
    operation.Equations a v f.carry (operation.apply f a v).1 (operation.apply f a v).2 := by
  cases operation with
  | add => exact Arithmetic.isSum_add a v false
  | addCarry => exact Arithmetic.isSum_add a v f.carry
  | subtract => exact Arithmetic.isDifference_subtract a v false
  | subtractBorrow => exact Arithmetic.isDifference_subtract a v f.carry
  | and => exact Arithmetic.isBitwise_conjoin a v
  | xor => exact Arithmetic.isBitwise_settle (Arithmetic.bit_xor a v)
  | or => exact Arithmetic.isBitwise_settle (Arithmetic.bit_or a v)
  | compare => exact ⟨rfl, _, Arithmetic.isDifference_subtract a v false⟩

/-! ## Rotations through the carry -/

theorem Rotation.leftThroughCarry_balance (carry : Bool) (a : UInt8) :
    (leftThroughCarry.apply carry a).1.toNat + 256 * (leftThroughCarry.apply carry a).2.toNat =
      2 * a.toNat + carry.toNat := by
  have ha := a.toNat_lt
  have hc := carry.toNat_le
  have hresult : (leftThroughCarry.apply carry a).1.toNat = (2 * a.toNat + carry.toNat) % 256 :=
    UInt8.toNat_ofNat'
  have hcarry : (leftThroughCarry.apply carry a).2.toNat = a.toNat / 128 % 2 :=
    Nat.toNat_testBit a.toNat 7
  omega

theorem Rotation.rightThroughCarry_balance (carry : Bool) (a : UInt8) :
    2 * (rightThroughCarry.apply carry a).1.toNat + (rightThroughCarry.apply carry a).2.toNat =
      a.toNat + 256 * carry.toNat := by
  have ha := a.toNat_lt
  have hc := carry.toNat_le
  have hresult : (rightThroughCarry.apply carry a).1.toNat =
      (a.toNat / 2 + 128 * carry.toNat) % 256 := UInt8.toNat_ofNat'
  have hcarry : (rightThroughCarry.apply carry a).2.toNat = a.toNat / 1 % 2 :=
    Nat.toNat_testBit a.toNat 0
  omega

end Arcade8080
