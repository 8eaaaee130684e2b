import Arcade8080.Processor.Flags
import Arcade8080.Instruction.Basic

/-!
# Byte arithmetic

The operations between the accumulator and a byte, with all five flags they
leave. Sums and differences are taken on natural numbers, where the carry out of
bit 7 and the carry out of bit 3 can be read off directly.

A difference sets the auxiliary carry when the lower nibble does *not* borrow.
-/

namespace Arcade8080

namespace Arithmetic

def add (a v : UInt8) (carry : Bool) : UInt8 × Flags :=
  let sum := a.toNat + v.toNat + carry.toNat
  let result := UInt8.ofNat sum
  (result, .after result (256 ≤ sum) (16 ≤ a.toNat % 16 + v.toNat % 16 + carry.toNat))

def subtract (a v : UInt8) (borrow : Bool) : UInt8 × Flags :=
  let taken := v.toNat + borrow.toNat
  let result := UInt8.ofNat (a.toNat + 512 - taken)
  (result, .after result (a.toNat < taken) (v.toNat % 16 + borrow.toNat ≤ a.toNat % 16))

/-- The auxiliary carry is bit 3 of either operand. -/
def conjoin (a v : UInt8) : UInt8 × Flags :=
  (a &&& v, .after (a &&& v) false (bit (a ||| v) 3))

/-- Both carries are cleared. -/
def settle (result : UInt8) : UInt8 × Flags :=
  (result, .after result false false)

/-- The successor of a byte. The carry stays. -/
def increment (f : Flags) (v : UInt8) : UInt8 × Flags :=
  (v + 1, { f.describe (v + 1) with auxCarry := v.toNat % 16 == 15 })

/-- The predecessor of a byte. The carry stays. -/
def decrement (f : Flags) (v : UInt8) : UInt8 × Flags :=
  (v - 1, { f.describe (v - 1) with auxCarry := (v - 1).toNat % 16 != 15 })

end Arithmetic

/-- The accumulator and the flags after an operation with `v`. -/
def ByteOperation.apply (operation : ByteOperation) (f : Flags) (a v : UInt8) : UInt8 × Flags :=
  match operation with
  | .add => Arithmetic.add a v false
  | .addCarry => Arithmetic.add a v f.carry
  | .subtract => Arithmetic.subtract a v false
  | .subtractBorrow => Arithmetic.subtract a v f.carry
  | .and => Arithmetic.conjoin a v
  | .xor => Arithmetic.settle (a ^^^ v)
  | .or => Arithmetic.settle (a ||| v)
  | .compare => (a, (Arithmetic.subtract a v false).2)

/-- The rotated accumulator and the new carry. -/
def Rotation.apply (rotation : Rotation) (carry : Bool) (a : UInt8) : UInt8 × Bool :=
  match rotation with
  | .left => (UInt8.ofNat (2 * a.toNat + a.toNat / 128), bit a 7)
  | .right => (UInt8.ofNat (a.toNat / 2 + 128 * (a.toNat % 2)), bit a 0)
  | .leftThroughCarry => (UInt8.ofNat (2 * a.toNat + carry.toNat), bit a 7)
  | .rightThroughCarry => (UInt8.ofNat (a.toNat / 2 + 128 * carry.toNat), bit a 0)

/-- Whether the flags meet a condition. -/
def Condition.holds (condition : Condition) (f : Flags) : Bool :=
  match condition with
  | .notZero => !f.zero
  | .zero => f.zero
  | .notCarry => !f.carry
  | .carry => f.carry
  | .parityOdd => !f.parity
  | .parityEven => f.parity
  | .positive => !f.sign
  | .negative => f.sign

end Arcade8080
