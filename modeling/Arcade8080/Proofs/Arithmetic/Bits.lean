import Arcade8080.Word
import Mathlib.Algebra.Group.Nat.Defs

/-!
# Bits of a byte

A byte is its eight bits, and setting one of them leaves the other seven alone. What is to be
known about bytes whose bits are set one at a time follows from these two.
-/

namespace Arcade8080

/-- Bytes with the same bits are the same. -/
theorem ext_bit {v w : UInt8} (h : ∀ k < 8, bit v k = bit w k) : v = w :=
  UInt8.toBitVec_inj.mp (BitVec.eq_of_getLsbD_eq h)

theorem bit_setBit (v : UInt8) (k : Nat) (on : Bool) {j : Nat} (hj : j < 8) :
    bit (setBit v k on) j = if j = k then on else bit v j := by
  have hmask : (UInt8.ofNat (1 <<< k)).toBitVec.getLsbD j = decide (k = j) := by
    show (BitVec.ofNat 8 (1 <<< k)).getLsbD j = _
    rw [BitVec.getLsbD_ofNat, Nat.one_shiftLeft, Nat.testBit_two_pow, decide_eq_true hj,
      Bool.true_and]
  have hv : bit v j = v.toBitVec.getLsbD j := rfl
  cases on with
  | true =>
    show (v.toBitVec ||| (UInt8.ofNat (1 <<< k)).toBitVec).getLsbD j = _
    rw [BitVec.getLsbD_or, hmask, hv]
    by_cases h : j = k
    · simp [h]
    · simp [h, Ne.symm h]
  | false =>
    show (v.toBitVec &&& ~~~(UInt8.ofNat (1 <<< k)).toBitVec).getLsbD j = _
    rw [BitVec.getLsbD_and, BitVec.getLsbD_not, hmask, hv]
    by_cases h : j = k
    · simp [h]
    · simp [h, Ne.symm h, hj]

/-- Of two settings of a bit the second one counts. -/
theorem setBit_setBit (v : UInt8) (k : Nat) (earlier on : Bool) :
    setBit (setBit v k earlier) k on = setBit v k on := by
  refine ext_bit fun j hj => ?_
  rw [bit_setBit _ _ _ hj, bit_setBit _ _ _ hj, bit_setBit _ _ _ hj]
  split <;> rfl

/-- Two bits are set in either order. -/
theorem setBit_comm (v : UInt8) {k l : Nat} (h : k ≠ l) (on on' : Bool) :
    setBit (setBit v k on) l on' = setBit (setBit v l on') k on := by
  refine ext_bit fun j hj => ?_
  rw [bit_setBit _ _ _ hj, bit_setBit _ _ _ hj, bit_setBit _ _ _ hj, bit_setBit _ _ _ hj]
  by_cases hk : j = k
  · simp [hk, h]
  · simp [hk]

/-- Bytes write the same number with their lower bits if these are the same. -/
theorem toNat_mod_eq_iff {v w : UInt8} (n : Nat) :
    v.toNat % 2 ^ n = w.toNat % 2 ^ n ↔ ∀ k < n, bit v k = bit w k := by
  constructor
  · intro h k hk
    have hbit := congrArg (·.testBit k) h
    simpa only [bit, Nat.testBit_mod_two_pow, hk, decide_true, Bool.true_and] using hbit
  · intro h
    refine Nat.eq_of_testBit_eq fun k => ?_
    rw [Nat.testBit_mod_two_pow, Nat.testBit_mod_two_pow]
    by_cases hk : k < n
    · exact congrArg (decide (k < n) && ·) (h k hk)
    · rw [decide_eq_false hk, Bool.false_and, Bool.false_and]

end Arcade8080
