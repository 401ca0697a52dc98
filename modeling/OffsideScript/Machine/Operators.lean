import OffsideScript.Machine.Exec

namespace OffsideScript

/-- The value of a constant. -/
def Constant.toValue : Constant → Value
  | nihl => .nihl
  | boolean value => .boolean value
  | number value => .number value
  | text value => .text value

namespace Exec

def unary (operator : UnaryOperator) (token : Token) (operand : Value) : Exec Value :=
  match operator, operand with
  | .negate, .number value => return .number (-value)
  | .negate, _ => fail token .operandNotNumber
  | .not, operand => return .boolean (!operand.isTrue)

/-- Applies a function to two numbers. -/
def arithmetic (token : Token) (left right : Value) (apply : Number → Number → Value) :
    Exec Value :=
  match left, right with
  | .number left, .number right => return apply left right
  | _, _ => fail token .operandsNotNumbers

def remainder (token : Token) (left right : Value) : Exec Value :=
  match left, right with
  | .number left, .number right =>
      match Number.remainder left right with
      | some value => return .number value
      | none => fail token .operandsNotIntegers
  | _, _ => fail token .operandsNotNumbers

/-- Joins two texts, or two arrays into a new one. -/
def concat (token : Token) (left right : Value) : Exec Value :=
  match left, right with
  | .text left, .text right => return .text (left ++ right)
  | .array left, .array right => do
      let heap := (← get).heap
      newArray (heap.array left ++ heap.array right)
  | _, _ => fail token .operandsNotJoinable

/-- Applies a binary operator to the values of its operands. -/
def binary (operator : BinaryOperator) (token : Token) (left right : Value) : Exec Value :=
  match operator with
  | .sequence => return right
  | .concat => concat token left right
  | .add => arithmetic token left right fun left right => .number (left + right)
  | .subtract => arithmetic token left right fun left right => .number (left - right)
  | .multiply => arithmetic token left right fun left right => .number (left * right)
  | .divide => arithmetic token left right fun left right => .number (left / right)
  | .remainder => remainder token left right
  | .power => arithmetic token left right fun left right => .number (left.pow right)
  | .equal => return .boolean (left.equals right)
  | .notEqual => return .boolean (!left.equals right)
  | .less => arithmetic token left right fun left right => .boolean (left < right)
  | .lessEqual => arithmetic token left right fun left right => .boolean (left ≤ right)
  | .greater => arithmetic token left right fun left right => .boolean (right < left)
  | .greaterEqual => arithmetic token left right fun left right => .boolean (right ≤ left)

/-- Only arrays and maps have elements. -/
def expectContainer (bracket : Token) (object : Value) : Exec Container :=
  match object with
  | .array ref => return .array ref
  | .map ref => return .map ref
  | object => do fail bracket (.notIndexable (← render object))

/-- The position of an element in an array of the given length. -/
def arrayPosition (bracket : Token) (index : Value) (length : Nat) : Exec Nat :=
  match index with
  | .number value =>
      match Number.magnitude? value with
      | some position =>
          if Number.isNegative value && position != 0 then do
            fail bracket (.invalidIndex (← render index))
          else if position < length then
            return position
          else
            fail bracket (.indexOutOfBounds (Number.text value))
      | none => do fail bracket (.invalidIndex (← render index))
  | index => do fail bracket (.invalidIndex (← render index))

def arrayLength (ref : ArrayRef) : Exec Nat := do
  return ((← get).heap.array ref).size

/-- The element of an array or the value of a key. -/
def element (bracket : Token) (container : Container) (index : Value) : Exec Value :=
  match container with
  | .array ref => do
      let position ← arrayPosition bracket index (← arrayLength ref)
      return ((← get).heap.array ref).getD position .nihl
  | .map ref => do
      return (((← get).heap.map ref).get? index).getD .nihl

/-- An array index is checked before the new value is known. -/
def checkElement (bracket : Token) (container : Container) (index : Value) : Exec Unit :=
  match container with
  | .array ref => do
      let _ ← arrayPosition bracket index (← arrayLength ref)
  | .map _ => return ()

/-- The result of storing an element is its container. -/
def setElement (bracket : Token) (container : Container) (index value : Value) : Exec Value :=
  match container with
  | .array ref => do
      let position ← arrayPosition bracket index (← arrayLength ref)
      modify (·.mapHeap (·.setElement ref position value))
      return .array ref
  | .map ref => do
      modify (·.mapHeap (·.insertEntry ref index value))
      return .map ref

/-- Fails if the number of arguments is wrong. -/
def checkArity (closing : Token) (expected found : Nat) : Exec Unit :=
  if expected = found then return () else fail closing (.arity expected found)

/-- An error of a builtin is reported at the call. -/
def perform (closing : Token) (builtin : Builtin) (arguments : List Value) : Exec Value :=
  fun machine =>
    match builtin.action arguments machine.host with
    | .ok value host => .ok value { machine with host }
    | .error error host => .error (.error (.at closing (.builtin error))) { machine with host }

/-- Calls a builtin with the right number of arguments. -/
def callBuiltin (closing : Token) (ref : BuiltinRef) (arguments : List Value) : Exec Value := do
  checkArity closing ref.arity arguments.length
  match (← get).library[ref.slot]? with
  | none => return .nihl
  | some builtin => perform closing builtin arguments

end Exec

end OffsideScript
