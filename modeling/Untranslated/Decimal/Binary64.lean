/-
This file defines the numbers of the 64-bit binary format as exact values, and the rounding of a
decimal number to the format.
-/

namespace Untranslated.Decimal

/-- A finite number is `mantissa * 2 ^ exponent`, with at most 53 bits in the mantissa. -/
inductive Binary64 where
  | finite (negative : Bool) (mantissa : Nat) (exponent : Int)
  | infinite (negative : Bool)
  | notANumber
deriving DecidableEq

namespace Binary64

def lowestExponent : Int := -1074

def highestExponent : Int := 971

/-- The quotient is rounded to the nearest whole number, a half to the even neighbour. -/
def roundHalfEven (numerator denominator : Nat) : Nat :=
  let quotient := numerator / denominator
  let double := 2 * (numerator % denominator)
  if double < denominator then quotient
  else if denominator < double then quotient + 1
  else quotient + quotient % 2

/-- The fraction `a * base ^ e` for a power of either sign. -/
def scaled (a base : Nat) (e : Int) : Nat × Nat :=
  if 0 ≤ e then (a * Nat.pow base e.toNat, 1) else (a, Nat.pow base (-e).toNat)

/-- The exponent at which the quotient has 53 bits before the point, or the lowest exponent. -/
def exponentFor (numerator denominator : Nat) : Int :=
  let guess : Int := (Nat.log2 numerator : Int) - Nat.log2 denominator - 52
  let shift (e : Int) : Nat × Nat :=
    if 0 ≤ e then (numerator, denominator * Nat.pow 2 e.toNat)
    else (numerator * Nat.pow 2 (-e).toNat, denominator)
  let (top, bottom) := shift guess
  let exponent := if top / bottom < Nat.pow 2 52 then guess - 1 else guess
  max exponent lowestExponent

/-- The number nearest to a fraction, a tie going to the even mantissa. -/
def ofFraction (negative : Bool) (numerator denominator : Nat) : Binary64 :=
  if numerator = 0 then .finite negative 0 0
  else
    let exponent := exponentFor numerator denominator
    let mantissa :=
      if 0 ≤ exponent then roundHalfEven numerator (denominator * Nat.pow 2 exponent.toNat)
      else roundHalfEven (numerator * Nat.pow 2 (-exponent).toNat) denominator
    let (mantissa, exponent) :=
      if mantissa = Nat.pow 2 53 then (Nat.pow 2 52, exponent + 1) else (mantissa, exponent)
    if highestExponent < exponent then .infinite negative
    else .finite negative mantissa exponent

/-- The number nearest to `digits * 10 ^ power`. Powers far outside the format are settled by the
count of digits. -/
def ofDecimal (negative : Bool) (digits : Nat) (power : Int) : Binary64 :=
  let magnitude : Int := (Nat.log2 digits : Int) * 3 / 10 + power
  if digits = 0 then .finite negative 0 0
  else if 400 < magnitude then .infinite negative
  else if magnitude < -400 then .finite negative 0 0
  else
    let (numerator, denominator) := scaled digits 10 power
    ofFraction negative numerator denominator

/-- The whole part, toward zero. It is absent for what is not finite. -/
def truncate? : Binary64 → Option Int
  | .finite negative mantissa exponent =>
    let (numerator, denominator) := scaled mantissa 2 exponent
    let whole : Int := numerator / denominator
    some (if negative then -whole else whole)
  | _ => none

end Binary64

end Untranslated.Decimal
