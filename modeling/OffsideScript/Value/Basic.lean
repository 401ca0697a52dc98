import OffsideScript.Number.Bits

namespace OffsideScript

structure ArrayRef where
  index : Nat
  deriving DecidableEq, Repr, Inhabited

structure MapRef where
  index : Nat
  deriving DecidableEq, Repr, Inhabited

structure FunctionRef where
  index : Nat
  deriving DecidableEq, Repr, Inhabited

/-- A builtin is called through its slot in the library of the machine. -/
structure BuiltinRef where
  name : String
  arity : Nat
  slot : Nat
  deriving DecidableEq, Repr, Inhabited

/-- Arrays, maps and functions are references, so copies of a value share them. -/
inductive Value where
  | nihl
  | boolean (value : Bool)
  | number (value : Number)
  | text (value : String)
  | array (ref : ArrayRef)
  | map (ref : MapRef)
  | function (ref : FunctionRef)
  | builtin (ref : BuiltinRef)
  deriving Inhabited

/-- What tells two map keys apart. -/
inductive Key where
  | nihl
  | boolean (value : Bool)
  | number (bits : UInt64)
  | text (value : String)
  | array (index : Nat)
  | map (index : Nat)
  | function (index : Nat)
  | builtin (name : String)
  deriving DecidableEq, Repr, Hashable

namespace Value

/-- What a program is told about the type of a value. -/
def typeName : Value → String
  | nihl => "nihl"
  | boolean _ => "boolean"
  | number _ => "number"
  | text _ => "string"
  | array _ => "array"
  | map _ => "map"
  | function _ => "function"
  | builtin _ => "function"

/-- Only nihl, false and zero are not true. -/
def isTrue : Value → Bool
  | nihl => false
  | boolean value => value
  | number value => !Number.isZero value
  | _ => true

/-- Plain values are equal by content and the others by identity. A builtin is known by its name. -/
def equals : Value → Value → Bool
  | nihl, nihl => true
  | boolean left, boolean right => left == right
  | number left, number right => Number.same left right
  | text left, text right => left == right
  | array left, array right => left == right
  | map left, map right => left == right
  | function left, function right => left == right
  | builtin left, builtin right => left.name == right.name
  | _, _ => false

/-- As a map key, NaN is equal to itself. -/
def keyEquals : Value → Value → Bool
  | number left, number right =>
      (Number.isNaN left && Number.isNaN right) || Number.same left right
  | left, right => left.equals right

/-- All patterns of NaN give one key, and so do both zeros. -/
def numberKey (value : Number) : UInt64 :=
  if Number.isNaN value then 0x7ff8000000000000
  else if Number.isZero value then 0
  else value.bits

/-- What is compared and hashed of a value. -/
def key : Value → Key
  | nihl => .nihl
  | boolean value => .boolean value
  | number value => .number (numberKey value)
  | text value => .text value
  | array ref => .array ref.index
  | map ref => .map ref.index
  | function ref => .function ref.index
  | builtin ref => .builtin ref.name

end Value

end OffsideScript
