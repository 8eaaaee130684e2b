import Arcade8080.Word

/-!
# General registers

Seven byte registers. B and C, D and E, H and L also serve as words; the first
one named is the upper half.
-/

namespace Arcade8080

structure Registers where
  a : UInt8 := 0
  b : UInt8 := 0
  c : UInt8 := 0
  d : UInt8 := 0
  e : UInt8 := 0
  h : UInt8 := 0
  l : UInt8 := 0
deriving DecidableEq

namespace Registers

def bc (r : Registers) : UInt16 := wordOf r.b r.c
def de (r : Registers) : UInt16 := wordOf r.d r.e
def hl (r : Registers) : UInt16 := wordOf r.h r.l

def setBC (r : Registers) (w : UInt16) : Registers := { r with b := highByte w, c := lowByte w }
def setDE (r : Registers) (w : UInt16) : Registers := { r with d := highByte w, e := lowByte w }
def setHL (r : Registers) (w : UInt16) : Registers := { r with h := highByte w, l := lowByte w }

/-- The registers in the order in which they are saved. -/
def toList (r : Registers) : List UInt8 := [r.a, r.b, r.c, r.d, r.e, r.h, r.l]

theorem bc_setBC (r : Registers) (w : UInt16) : (r.setBC w).bc = w := wordOf_bytes w
theorem de_setDE (r : Registers) (w : UInt16) : (r.setDE w).de = w := wordOf_bytes w
theorem hl_setHL (r : Registers) (w : UInt16) : (r.setHL w).hl = w := wordOf_bytes w

end Registers

end Arcade8080
