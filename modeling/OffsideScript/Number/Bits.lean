/-
This file defines numbers. A number is a double, which is known by its bits: its class, its exact value and the
integer that it may be are read from them.
-/

namespace OffsideScript

/-- The 64 bits of a double. NaN has many patterns. -/
@[ext] structure Number where
  bits : UInt64
  deriving DecidableEq, Repr, Inhabited

namespace Number

/-- A double is kept by its bits. -/
def ofFloat (value : Float) : Number :=
  ⟨value.toBits⟩

def toFloat (number : Number) : Float :=
  .ofBits number.bits

instance : Coe Float Number := ⟨ofFloat⟩

def ofNat (value : Nat) : Number :=
  Float.ofNat value

instance (value : Nat) : OfNat Number value := ⟨ofNat value⟩

instance : OfScientific Number :=
  ⟨fun mantissa negative exponent => ofFloat (Float.ofScientific mantissa negative exponent)⟩

/-- The sign is the bit above all others, also in a NaN. -/
def neg (number : Number) : Number :=
  ⟨number.bits ^^^ 0x8000000000000000⟩

def pow (base exponent : Number) : Number :=
  base.toFloat.pow exponent.toFloat

instance : Neg Number := ⟨neg⟩
instance : Add Number := ⟨fun left right => ofFloat (left.toFloat + right.toFloat)⟩
instance : Sub Number := ⟨fun left right => ofFloat (left.toFloat - right.toFloat)⟩
instance : Mul Number := ⟨fun left right => ofFloat (left.toFloat * right.toFloat)⟩
instance : Div Number := ⟨fun left right => ofFloat (left.toFloat / right.toFloat)⟩

instance : LT Number := ⟨fun left right => left.toFloat < right.toFloat⟩
instance : LE Number := ⟨fun left right => left.toFloat ≤ right.toFloat⟩

instance (left right : Number) : Decidable (left < right) :=
  inferInstanceAs (Decidable (left.toFloat < right.toFloat))

instance (left right : Number) : Decidable (left ≤ right) :=
  inferInstanceAs (Decidable (left.toFloat ≤ right.toFloat))

/-- A finite double is its mantissa times two to its exponent, up to sign. -/
structure Parts where
  negative : Bool
  mantissa : Nat
  exponent : Int
  deriving DecidableEq, Repr

/-- The highest bit is the sign. -/
def isNegative (number : Number) : Bool :=
  number.bits.toNat / Nat.pow 2 63 % 2 == 1

/-- The biased exponent has eleven bits and is full for infinities and for NaN. -/
def biasedExponent (number : Number) : Nat :=
  number.bits.toNat / Nat.pow 2 52 % Nat.pow 2 11

def fractionBits (number : Number) : Nat :=
  number.bits.toNat % Nat.pow 2 52

/-- Whether a number is neither infinite nor NaN. -/
def isFinite (number : Number) : Bool :=
  number.biasedExponent != 2047

/-- Whether a number is a NaN of any sign and payload. -/
def isNaN (number : Number) : Bool :=
  number.biasedExponent == 2047 && number.fractionBits != 0

/-- Both zeros count as zero. -/
def isZero (number : Number) : Bool :=
  number.bits.toNat % Nat.pow 2 63 == 0

/-- The parts of an infinity or of NaN are meaningless. -/
def parts (number : Number) : Parts :=
  if number.biasedExponent = 0 then
    ⟨number.isNegative, number.fractionBits, -1074⟩
  else
    ⟨number.isNegative, number.fractionBits + Nat.pow 2 52, (number.biasedExponent : Int) - 1075⟩

/-- Numbers are equal when their bits are, except that the zeros are equal and NaN is not. -/
def same (left right : Number) : Bool :=
  !isNaN left && !isNaN right &&
    ((isZero left && isZero right) || left.bits == right.bits)

/-- The integer that the parts denote, without its sign, if they denote one. -/
def Parts.magnitude? (number : Parts) : Option Nat :=
  match number.exponent with
  | .ofNat shift => some (number.mantissa * Nat.pow 2 shift)
  | .negSucc shift =>
      if number.mantissa % Nat.pow 2 (shift + 1) = 0 then some (number.mantissa / Nat.pow 2 (shift + 1))
      else none

/-- The magnitude of a number without a fraction; infinities and NaN have none. -/
def magnitude? (number : Number) : Option Nat :=
  if isFinite number then (parts number).magnitude? else none

/-- The remainder of two integers has the sign of the first; by zero it is NaN. -/
def remainder (left right : Number) : Option Number :=
  match magnitude? left, magnitude? right with
  | some dividend, some divisor =>
      if divisor = 0 then some (0.0 / 0.0)
      else
        let rest := ofNat (dividend % divisor)
        some (if isNegative left then -rest else rest)
  | _, _ => none

end Number

end OffsideScript
