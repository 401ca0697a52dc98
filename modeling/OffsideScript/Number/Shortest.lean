/-
This file finds the fewest decimal digits that read back as a given double.
-/

import OffsideScript.Number.Bits

namespace OffsideScript.Number

/-- A decimal is its digits, read as one natural number, times a power of ten. -/
structure Decimal where
  digits : Nat
  exponent : Int
  deriving DecidableEq, Repr

/-- The reals that round to a double, over one denominator; the ends belong to it when
the mantissa is even. -/
structure Interval where
  low : Nat
  value : Nat
  high : Nat
  denominator : Nat
  closed : Bool

/-- The gap below a power of two is half the gap above it. -/
def Parts.interval (number : Parts) : Interval :=
  let below := if number.mantissa = Nat.pow 2 52 ∧ number.exponent ≠ -1074 then 1 else 2
  let shift := (number.exponent - 2).toNat
  { low := (4 * number.mantissa - below) * Nat.pow 2 shift
    value := 4 * number.mantissa * Nat.pow 2 shift
    high := (4 * number.mantissa + 2) * Nat.pow 2 shift
    denominator := Nat.pow 2 (2 - number.exponent).toNat
    closed := number.mantissa % 2 = 0 }

def decimalLength (number : Nat) : Nat :=
  (Nat.toDigits 10 number).length

/-- The least power of ten above a positive quotient. -/
def Interval.decimalExponent (interval : Interval) : Int :=
  if interval.denominator ≤ interval.value then
    decimalLength (interval.value / interval.denominator)
  else
    1 - (decimalLength ((interval.denominator - 1) / interval.value) : Int)

/-- Whether a point of a grid lies in an interval. -/
def Interval.contains (interval : Interval) (unit scale candidate : Nat) : Bool :=
  let point := candidate * unit
  if interval.closed then
    interval.low * scale ≤ point && point ≤ interval.high * scale
  else
    interval.low * scale < point && point < interval.high * scale

/-- The nearer neighbour of the value on a decimal grid, if one lies in the interval;
a tie goes up. -/
def Interval.onGrid? (interval : Interval) (exponent : Int) : Option Nat :=
  let unit := interval.denominator * Nat.pow 10 exponent.toNat
  let scale := Nat.pow 10 (-exponent).toNat
  let value := interval.value * scale
  let lower := value / unit
  let upper := lower + 1
  match interval.contains unit scale lower, interval.contains unit scale upper with
  | true, true => some (if value - lower * unit < upper * unit - value then lower else upper)
  | true, false => some lower
  | false, true => some upper
  | false, false => none

/-- Tries grids of growing precision; seventeen digits always suffice. -/
def Interval.search (interval : Interval) (top : Int) : Nat → Nat → Decimal
  | 0, places =>
      let exponent := top - places
      ⟨interval.value * Nat.pow 10 (-exponent).toNat /
        (interval.denominator * Nat.pow 10 exponent.toNat), exponent⟩
  | attempts + 1, places =>
      match interval.onGrid? (top - places) with
      | some digits => ⟨digits, top - places⟩
      | none => interval.search top attempts (places + 1)

/-- Rounding up can leave a power of ten, which has one digit. -/
def Decimal.normal (decimal : Decimal) : Decimal :=
  if decimal.digits = 10 then ⟨1, decimal.exponent + 1⟩ else decimal

/-- The shortest decimal of a positive finite double. -/
def Parts.shortest (number : Parts) : Decimal :=
  let interval := number.interval
  (interval.search interval.decimalExponent 17 1).normal

end OffsideScript.Number
