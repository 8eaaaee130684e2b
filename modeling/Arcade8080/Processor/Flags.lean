import Arcade8080.Word

/-!
# Condition flags

The five flags of the 8080 and the byte in which they are pushed on the stack.
That byte has the layout S Z 0 AC 0 P 1 CY: bit 1 is written as one and bits 5
and 3 as zero, and none of the three is looked at when the byte is read back.
-/

namespace Arcade8080

structure Flags where
  zero : Bool := false
  sign : Bool := false
  parity : Bool := false
  carry : Bool := false
  auxCarry : Bool := false
deriving DecidableEq

/-- How many of the eight bits are set. -/
def countOnes (v : UInt8) : Nat :=
  v.toNat % 2 + v.toNat / 2 % 2 + v.toNat / 4 % 2 + v.toNat / 8 % 2 +
    v.toNat / 16 % 2 + v.toNat / 32 % 2 + v.toNat / 64 % 2 + v.toNat / 128 % 2

def evenParity (v : UInt8) : Bool := countOnes v % 2 == 0

namespace Flags

/-- Zero, sign and parity describe `result`; the two carries stay. -/
def describe (f : Flags) (result : UInt8) : Flags :=
  { f with zero := result == 0, sign := bit result 7, parity := evenParity result }

/-- As `describe`, with a new carry. -/
def describeWithCarry (f : Flags) (result : UInt8) (carry : Bool) : Flags :=
  { f.describe result with carry := carry }

/-- All five flags after an operation with this result and these carries. Nothing is left of the
flags before it. -/
def after (result : UInt8) (carry auxCarry : Bool) : Flags :=
  describeWithCarry { auxCarry := auxCarry } result carry

def pack (f : Flags) : UInt8 :=
  UInt8.ofNat (128 * f.sign.toNat + 64 * f.zero.toNat + 16 * f.auxCarry.toNat +
    4 * f.parity.toNat + 2 + f.carry.toNat)

def unpack (v : UInt8) : Flags :=
  { zero := bit v 6, sign := bit v 7, parity := bit v 2, carry := bit v 0, auxCarry := bit v 4 }

theorem unpack_pack (f : Flags) : unpack f.pack = f := by
  rcases f with ⟨_ | _, _ | _, _ | _, _ | _, _ | _⟩ <;> rfl

end Flags

end Arcade8080
