import Arcade8080.Numeric.Rounding

/-!
# Floating-point numbers as exact values

A finite double is a whole number times a power of two. `Dyadic.nearest` picks
the double nearest to a fraction, ties to even; `Dyadic.times` takes a double
times a whole number to the nearest whole number. Both work on natural numbers
and round once.
-/

namespace Arcade8080

/-- The value `mantissa * 2 ^ exponent`. -/
structure Dyadic where
  mantissa : Nat
  exponent : Int
deriving DecidableEq

namespace Dyadic

/-- The exponents of the smallest and of the largest doubles. -/
def minExponent : Int := -1074
def maxExponent : Int := 971

/-- The fraction `num / den` in units of `2 ^ exponent`, rounded. -/
def scale (num den : Nat) (exponent : Int) : Nat :=
  if 0 ≤ exponent then roundHalfEven num (den <<< exponent.toNat)
  else roundHalfEven (num <<< (-exponent).toNat) den

/-- The exponent that gives `num / den` a mantissa of 53 bits, where there is one. -/
def exponentFor (num den : Nat) : Int :=
  let guess : Int := (num.log2 : Int) - den.log2 - 52
  let short : Bool :=
    if 0 ≤ guess then num < (den <<< (52 + guess.toNat))
    else (num <<< (-guess).toNat) < (den <<< 52)
  max minExponent (if short then guess - 1 else guess)

/-- The double nearest to `num / den`, or `none` if that is infinite. -/
def nearest (num den : Nat) : Option Dyadic :=
  if num = 0 then some ⟨0, 0⟩
  else
    let exponent := exponentFor num den
    let mantissa := scale num den exponent
    if maxExponent < exponent ∨ (exponent = maxExponent ∧ 1 <<< 53 ≤ mantissa) then none
    else some ⟨mantissa, exponent⟩

/-- The whole number nearest to `factor` times the value. -/
def times (d : Dyadic) (factor : Nat) : Nat :=
  if 0 ≤ d.exponent then (d.mantissa * factor) <<< d.exponent.toNat
  else roundHalfEven (d.mantissa * factor) (1 <<< (-d.exponent).toNat)

/-- The bits of a double that `nearest` answered, without a sign. -/
def bits (d : Dyadic) : UInt64 :=
  if d.mantissa = 0 then 0
  else UInt64.ofNat (d.mantissa + ((d.exponent - minExponent).toNat <<< 52))

/-- The magnitude of a double, or `none` if it is infinite or no number. -/
def ofFloat? (x : Float) : Option Dyadic :=
  let word := x.toBits.toNat
  let field : Nat := (word >>> 52) % 2048
  let fraction : Nat := word % (1 <<< 52)
  if field = 2047 then none
  else if field = 0 then some ⟨fraction, minExponent⟩
  else some ⟨(1 <<< 52) + fraction, minExponent + (field - 1 : Nat)⟩

end Dyadic

/-- A magnitude to the nearest whole number, with all of its digits. -/
def wholeText (x : Float) : String :=
  match Dyadic.ofFloat? x with
  | some d => toString (d.times 1)
  | none => if x.isNaN then "NaN" else "inf"

end Arcade8080
