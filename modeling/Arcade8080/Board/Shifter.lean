import Arcade8080.Word

/-!
# The barrel shifter

Two bytes side by side, the newest one on the left, read through a window of
eight bits that can be moved to the right by up to seven places.
-/

namespace Arcade8080

structure Shifter where
  /-- The byte written last. -/
  x : UInt8 := 0
  /-- The byte written before it. -/
  y : UInt8 := 0
  offset : Fin 8 := threeBits 0
deriving DecidableEq

namespace Shifter

/-- Of an offset only the lower three bits count. -/
def ofBytes (x y offset : UInt8) : Shifter := ⟨x, y, threeBits offset.toNat⟩

def push (s : Shifter) (value : UInt8) : Shifter := { s with x := value, y := s.x }

def setOffset (s : Shifter) (value : UInt8) : Shifter :=
  { s with offset := threeBits value.toNat }

/-- The byte in the window. -/
def result (s : Shifter) : UInt8 :=
  UInt8.ofNat ((256 * s.x.toNat + s.y.toNat) >>> (8 - s.offset.val))

def toList (s : Shifter) : List UInt8 := [s.x, s.y, UInt8.ofNat s.offset.val]

end Shifter

end Arcade8080
