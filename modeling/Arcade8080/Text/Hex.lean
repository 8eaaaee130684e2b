/-!
# Hexadecimal text

Numbers to base sixteen with a fixed count of digits, the most significant one
first. Digits that do not fit are dropped; the callers print bytes with two
digits and words with four, where nothing is lost.
-/

namespace Arcade8080.Hex

/-- The letters that stand for ten to fifteen. -/
inductive Letters
  | lower
  | upper

def Letters.ten : Letters → Nat
  | .lower => 'a'.toNat
  | .upper => 'A'.toNat

def digit (letters : Letters) (n : Nat) : Char :=
  if n < 10 then Char.ofNat ('0'.toNat + n) else Char.ofNat (letters.ten + (n - 10))

def digits (letters : Letters) : Nat → Nat → List Char
  | 0, _ => []
  | width + 1, n => digits letters width (n / 16) ++ [digit letters (n % 16)]

def byte (b : UInt8) : String := String.ofList (digits .lower 2 b.toNat)

def word (w : UInt16) : String := String.ofList (digits .lower 4 w.toNat)

def upperByte (b : UInt8) : String := String.ofList (digits .upper 2 b.toNat)

def upperWord (w : UInt16) : String := String.ofList (digits .upper 4 w.toNat)

/-- Two digits for each byte, nothing between them. -/
def bytes (data : List UInt8) : String :=
  String.ofList (data.flatMap fun b => digits .lower 2 b.toNat)

end Arcade8080.Hex
