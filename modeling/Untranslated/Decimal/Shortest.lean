/-
This file defines the shortest decimal text of a binary number: the fewest digits that read back,
and of those the nearest to the number.
-/

import Untranslated.Decimal.Binary64

namespace Untranslated.Decimal

/-- A decimal number is `digits * 10 ^ power`. -/
structure Scientific where
  digits : Nat
  power : Int
deriving DecidableEq

namespace Shortest

/-- The numbers that round to `mantissa * 2 ^ exponent`, in quarters of the unit
`2 ^ exponent`. -/
structure Interval where
  lower : Nat
  upper : Nat
  closed : Bool

/-- The gap below a power of two is half as wide, save at the lowest exponent. -/
def interval (mantissa : Nat) (exponent : Int) : Interval where
  lower :=
    if mantissa = Nat.pow 2 52 && Binary64.lowestExponent < exponent then 4 * mantissa - 1
    else 4 * mantissa - 2
  upper := 4 * mantissa + 2
  closed := mantissa % 2 == 0

/-- A decimal number and a count of quarter units, brought to one denominator. -/
def comparable (decimal : Scientific) (quarters : Nat) (exponent : Int) : Nat × Nat :=
  let (tens, tenths) := Binary64.scaled decimal.digits 10 decimal.power
  let (twos, halves) := Binary64.scaled quarters 2 exponent
  (4 * tens * halves, twos * tenths)

def inside (mantissa : Nat) (exponent : Int) (decimal : Scientific) : Bool :=
  let range := interval mantissa exponent
  let (low, lowBound) := comparable decimal range.lower exponent
  let (high, highBound) := comparable decimal range.upper exponent
  if range.closed then lowBound ≤ low && high ≤ highBound
  else lowBound < low && high < highBound

def distance (mantissa : Nat) (exponent : Int) (decimal : Scientific) : Nat :=
  let (mine, value) := comparable decimal (4 * mantissa) exponent
  (mine - value) + (value - mine)

/-- The whole number of grid steps `10 ^ power` below the value. -/
def floorOnGrid (mantissa : Nat) (exponent power : Int) : Nat :=
  let (numerator, denominator) := Binary64.scaled mantissa 2 exponent
  if 0 ≤ power then numerator / (denominator * Nat.pow 10 power.toNat)
  else numerator * Nat.pow 10 (-power).toNat / denominator

/-- The two neighbours of the value on a grid that read back, the nearer one first. -/
def onGrid (mantissa : Nat) (exponent power : Int) : Option Scientific :=
  let below : Scientific := ⟨floorOnGrid mantissa exponent power, power⟩
  let above : Scientific := ⟨below.digits + 1, power⟩
  let low := inside mantissa exponent below && below.digits != 0
  let high := inside mantissa exponent above
  match low, high with
  | false, false => none
  | true, false => some below
  | false, true => some above
  | true, true =>
    let down := distance mantissa exponent below
    let up := distance mantissa exponent above
    if down < up then some below
    else if up < down then some above
    else if below.digits % 2 == 0 then some below
    else some above

/-- A power of ten at or above a positive number, by its bits. -/
def powerAbove (mantissa : Nat) (exponent : Int) : Int :=
  (((Nat.log2 mantissa : Int) + 1 + exponent) * 30103).fdiv 100000 + 1

/-- Zeros at the end move into the power. -/
def strip (fuel : Nat) (decimal : Scientific) : Scientific :=
  match fuel with
  | 0 => decimal
  | fuel + 1 =>
    if decimal.digits % 10 == 0 && decimal.digits != 0 then
      strip fuel ⟨decimal.digits / 10, decimal.power + 1⟩
    else decimal

/-- Grids from coarse to fine are tried in turn. Seventeen digits always read back. -/
def search (mantissa : Nat) (exponent : Int) (power : Int) : Nat → Scientific
  | 0 => ⟨floorOnGrid mantissa exponent power, power⟩
  | fuel + 1 =>
    match onGrid mantissa exponent power with
    | some found => strip 20 found
    | none => search mantissa exponent (power - 1) fuel

def ofBinary (mantissa : Nat) (exponent : Int) : Scientific :=
  search mantissa exponent (powerAbove mantissa exponent) 24

end Shortest

/-- The digits of a number's text, and where plain notation gives way to an exponent. -/
structure NotationLimits where
  plainFrom : Int
  plainBelow : Int

/-- Plain notation is used from `0.0001` on and below `10 ^ 16`. -/
def defaultLimits : NotationLimits := ⟨-4, 16⟩

def zeros (count : Nat) : String := String.ofList (List.replicate count '0')

/-- The exponent shows its sign and at least two digits. -/
def exponentText (e : Int) : String :=
  let digits := toString e.natAbs
  (if e < 0 then "e-" else "e+") ++ (if digits.length < 2 then "0" ++ digits else digits)

/-- The text has a digit on both sides of a point, or an exponent. -/
def Scientific.text (limits : NotationLimits) (decimal : Scientific) : String :=
  let digits := toString decimal.digits
  let leading : Int := decimal.power + digits.length - 1
  if leading < limits.plainFrom || limits.plainBelow ≤ leading then
    let fraction := String.ofList (digits.toList.drop 1)
    String.ofList (digits.toList.take 1) ++ (if fraction.isEmpty then "" else "." ++ fraction) ++
      exponentText leading
  else if 0 ≤ decimal.power then digits ++ zeros decimal.power.toNat ++ ".0"
  else if leading < 0 then "0." ++ zeros (-leading - 1).toNat ++ digits
  else
    String.ofList (digits.toList.take (leading.toNat + 1)) ++ "." ++
      String.ofList (digits.toList.drop (leading.toNat + 1))

/-- The shortest text that reads back as the same number. -/
def Binary64.text : Binary64 → String
  | .notANumber => "nan"
  | .infinite negative => if negative then "-inf" else "inf"
  | .finite negative mantissa exponent =>
    let magnitude :=
      if mantissa = 0 then "0.0" else (Shortest.ofBinary mantissa exponent).text defaultLimits
    if negative then "-" ++ magnitude else magnitude

end Untranslated.Decimal
