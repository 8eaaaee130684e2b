import Arcade8080.Numeric.Binary64

/-!
# Numbers in text

A number is written with an optional sign, digits with at most one point among
or around them, and an optional exponent. There must be a digit before the
exponent, and one in it. The words `inf`, `infinity` and `nan` are numbers too,
with letters of either case. Nothing else is allowed, no blanks in particular.

An exponent that has passed 65535 does not grow any further.
-/

namespace Arcade8080

/-- What a text denotes: a finite number is `± mantissa * 10 ^ exponent`. -/
inductive DecimalNumber
  | notANumber
  | infinite (negative : Bool)
  | finite (negative : Bool) (mantissa : Nat) (exponent : Int)
deriving DecidableEq

inductive DecimalError
  | empty
  | malformed
deriving DecidableEq

def DecimalError.message : DecimalError → String
  | .empty => "cannot parse float from empty string"
  | .malformed => "invalid float literal"

namespace DecimalNumber

def digitValue (c : Char) : Nat := c.toNat - '0'.toNat

/-- The number that a row of digits writes, after `start`. -/
def readDigits (start : Nat) (digits : List Char) : Nat :=
  digits.foldl (fun n c => 10 * n + digitValue c) start

/-- The number that the digits of an exponent write. -/
def readExponent (digits : List Char) : Nat :=
  digits.foldl (fun n c => if n < 65536 then 10 * n + digitValue c else n) 0

/-- Whether there is a sign of minus, and the text after the sign. -/
def splitSign : List Char → Bool × List Char
  | '-' :: rest => (true, rest)
  | '+' :: rest => (false, rest)
  | text => (false, text)

/-- The exponent at the end of a number. It may be missing. -/
def exponent? : List Char → Option Int
  | [] => some 0
  | c :: text =>
    if c = 'e' ∨ c = 'E' then
      let (negative, digits) := splitSign text
      if digits.isEmpty ∨ !digits.all Char.isDigit then none
      else if negative then some (-(readExponent digits : Int)) else some (readExponent digits)
    else none

/-- The digits after the point, if there is a point, and the text after them. -/
def splitFraction : List Char → List Char × List Char
  | '.' :: text => (text.takeWhile Char.isDigit, text.dropWhile Char.isDigit)
  | text => ([], text)

/-- A number without a sign. -/
def magnitude? (negative : Bool) (text : List Char) : Option DecimalNumber :=
  let whole := text.takeWhile Char.isDigit
  let (fraction, rest) := splitFraction (text.dropWhile Char.isDigit)
  if whole.isEmpty && fraction.isEmpty then none
  else
    (exponent? rest).map fun exponent =>
      .finite negative (readDigits (readDigits 0 whole) fraction) (exponent - fraction.length)

def ofText (text : String) : Except DecimalError DecimalNumber :=
  if text.isEmpty then .error .empty
  else
    let (negative, rest) := splitSign text.toList
    let word := String.ofList (rest.map Char.toLower)
    if word = "nan" then .ok .notANumber
    else if word = "inf" ∨ word = "infinity" then .ok (.infinite negative)
    else
      match magnitude? negative rest with
      | some number => .ok number
      | none => .error .malformed

/-- The magnitude of the nearest double, or `none` if that is infinite. -/
def nearestMagnitude (mantissa : Nat) (exponent : Int) : Option Dyadic :=
  if 0 ≤ exponent then Dyadic.nearest (mantissa * Nat.pow 10 exponent.toNat) 1
  else Dyadic.nearest mantissa (Nat.pow 10 (-exponent).toNat)

end DecimalNumber

end Arcade8080
