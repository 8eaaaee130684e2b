import Arcade8080.Processor.Flags

/-!
# Decimal adjustment

After a sum of two packed decimal numbers the accumulator is corrected in two
steps: six is added to the lower digit when it is no decimal digit or carried,
then six to the upper one under the same rule. A carry that either step
produces, or that was there before, is kept.
-/

namespace Arcade8080.Arithmetic

/-- The first step: the byte, whether it overflowed, and the carry out of bit 3. -/
def adjustLower (a : UInt8) (auxCarry : Bool) : UInt8 × Bool × Bool :=
  if 9 < a.toNat % 16 || auxCarry then
    (a + 0x06, 256 ≤ a.toNat + 6, 16 ≤ a.toNat % 16 + 6)
  else (a, false, false)

/-- The second step: the byte and whether it overflowed. -/
def adjustUpper (a : UInt8) (carry : Bool) : UInt8 × Bool :=
  if 9 < a.toNat / 16 || carry then (a + 0x60, 256 ≤ a.toNat + 96) else (a, false)

def decimalAdjust (f : Flags) (a : UInt8) : UInt8 × Flags :=
  let (lower, lowerOverflow, auxCarry) := adjustLower a f.auxCarry
  let carry := f.carry || lowerOverflow
  let (result, upperOverflow) := adjustUpper lower carry
  (result, .after result (carry || upperOverflow) auxCarry)

end Arcade8080.Arithmetic
