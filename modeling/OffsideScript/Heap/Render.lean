import OffsideScript.Heap.Basic
import OffsideScript.Number.Text
import OffsideScript.Text.Quoted

namespace OffsideScript

/-- The values that hold other values. -/
inductive Container where
  | array (ref : ArrayRef)
  | map (ref : MapRef)
  deriving DecidableEq, Repr

namespace Heap

/-- The name that a function was declared with. -/
def functionName (heap : Heap) (ref : FunctionRef) : String :=
  match heap.closure? ref with
  | some closure => closure.name.lexeme
  | none => ""

/-- The number of containers bounds how deeply they nest without a cycle. -/
def containers (heap : Heap) : Nat :=
  heap.arrays.size + heap.maps.size

/-- Writing keeps a stack of the containers that are being written. -/
abbrev Writer := StateM (List Container) String

/-- Writes a container, which is on the stack meanwhile. A container that is there already is not written
again. -/
def Writer.inside (container : Container) (content : Writer) : Writer := do
  if (← get).contains container then
    return "[Circular]"
  else
    modify (container :: ·)
    let text ← content
    modify List.tail
    return text

/-- Writes a value. When there are as many containers on the stack as the heap has, no other can occur. -/
def renderWithin (heap : Heap) : Nat → Value → Writer
  | _, .nihl => return "nihl"
  | _, .boolean value => return if value then "true" else "false"
  | _, .number value => return Number.text value
  | _, .text value => return "'" ++ value ++ "'"
  | _, .function ref => return "<func " ++ heap.functionName ref ++ ">"
  | _, .builtin ref => return "<builtin " ++ ref.name ++ ">"
  | 0, .array _ => return "[Circular]"
  | 0, .map _ => return "[Circular]"
  | depth + 1, .array ref =>
      Writer.inside (.array ref) do
        let elements ← (heap.array ref).toList.mapM (heap.renderWithin depth)
        return "[" ++ String.intercalate ", " elements ++ "]"
  | depth + 1, .map ref =>
      Writer.inside (.map ref) do
        let entries ← (heap.map ref).entries.toList.mapM fun (key, value) => do
          let keyText ← heap.renderWithin depth key
          let valueText ← heap.renderWithin depth value
          return keyText ++ " => " ++ valueText
        return "\x7b" ++ String.intercalate ", " entries ++ "\x7d"

/-- The form of a value inside containers and in messages. -/
def render (heap : Heap) (value : Value) : String :=
  (heap.renderWithin heap.containers value []).1

/-- The form of a value that a program prints. A text on its own has no quotes. -/
def display (heap : Heap) : Value → String
  | .text value => value
  | value => heap.render value

/-- A callable value with its number of parameters. -/
def signature? (heap : Heap) : Value → Option (String × Nat × String)
  | .function ref =>
      (heap.closure? ref).map fun closure =>
        let arity := closure.parameters.length
        (closure.name.lexeme, arity,
          "<func " ++ closure.name.lexeme ++ "/" ++ toString arity ++ ">")
  | .builtin ref =>
      some (ref.name, ref.arity,
        "Builtin \x7b name: " ++ Text.quoted ref.name ++ ", arity: " ++ toString ref.arity ++
          " \x7d")
  | _ => none

end Heap

/-- Values can refer back to their environment, so only names are shown. -/
def Environment.describe (environment : Environment) : String :=
  let names := (environment.bindings.map Prod.fst).mergeSort fun left right => left ≤ right
  "Environment \x7b names: [" ++ String.intercalate ", " (names.map Text.quoted) ++
    "], enclosed: " ++ (if environment.parent.isSome then "true" else "false") ++ " \x7d"

end OffsideScript
