import OffsideScript.Heap.Render
import OffsideScript.Machine.Basic

namespace OffsideScript

/-- A run that does not finish fails or runs out of fuel. -/
inductive Halt where
  | error (error : RuntimeError)
  | outOfFuel

/-- Actions on a machine that may halt. -/
abbrev Exec := EStateM Halt Machine

/-- How a statement ended. Every end but the first leaves the statements around it, up to a loop or a
call. -/
inductive Flow where
  | normal
  | returned (value : Value)
  | broke
  | continued

namespace Exec

/-- Halts with an error at a token. -/
def fail {α : Type} (token : Token) (reason : RuntimeError.Reason) : Exec α :=
  throw (.error (.at token reason))

/-- Runs an action in another environment and comes back however it ends. -/
@[inline] def within {α : Type} (environment : EnvironmentRef) (action : Exec α) : Exec α :=
  fun machine =>
    let outer := machine.environment
    match action { machine with environment } with
    | .ok result after => .ok result { after with environment := outer }
    | .error halt after => .error halt { after with environment := outer }

/-- Runs the body of a loop, or its condition. -/
@[inline] def inLoop {α : Type} (action : Exec α) : Exec α :=
  fun machine =>
    match action { machine with loopDepth := machine.loopDepth + 1 } with
    | .ok result after => .ok result { after with loopDepth := after.loopDepth - 1 }
    | .error halt after => .error halt { after with loopDepth := after.loopDepth - 1 }

/-- Runs the body of a function, which the loops around its call do not enclose. -/
@[inline] def inCall {α : Type} (action : Exec α) : Exec α :=
  fun machine =>
    let loops := machine.loopDepth
    match action { machine with callDepth := machine.callDepth + 1, loopDepth := 0 } with
    | .ok result after =>
        .ok result { after with callDepth := after.callDepth - 1, loopDepth := loops }
    | .error halt after =>
        .error halt { after with callDepth := after.callDepth - 1, loopDepth := loops }

def newArray (elements : Array Value) : Exec Value :=
  modifyGet fun machine =>
    let (value, heap) := machine.host.heap.newArray elements
    (value, { machine with host.heap := heap })

def newMap (map : OrderedMap Value Value) : Exec Value :=
  modifyGet fun machine =>
    let (value, heap) := machine.host.heap.newMap map
    (value, { machine with host.heap := heap })

/-- Makes a function in the current environment. -/
def newFunction (name : Token) (parameters : List Token) (body : List Statement) : Exec Value :=
  modifyGet fun machine =>
    let (value, heap) :=
      machine.host.heap.newFunction ⟨name, parameters, body, machine.environment⟩
    (value, { machine with host.heap := heap })

/-- Makes an environment inside another one. -/
def newEnvironment (bindings : Bindings) (parent : EnvironmentRef) : Exec EnvironmentRef :=
  modifyGet fun machine =>
    let (ref, heap) := machine.host.heap.newEnvironment ⟨bindings, some parent⟩
    (ref, { machine with host.heap := heap })

/-- Binds a name in the current environment. -/
def define (name : String) (value : Value) : Exec Unit :=
  modify fun machine => machine.mapHeap (·.define machine.environment name value)

def render (value : Value) : Exec String := do
  return (← get).heap.render value

/-- Prints a line, as far as the sink has room for it. -/
def print (keyword : Token) (value : Value) : Exec Unit := fun machine =>
  let text := machine.heap.display value ++ "\n"
  match machine.sink.write text with
  | (true, sink) => .ok () { machine with sink }
  | (false, sink) =>
      .error (.error (.at keyword (.output "output limit reached"))) { machine with sink }

/-- The environment in which a variable is sought. -/
def locate (node : NodeId) (name : String) : Exec (Option EnvironmentRef) := do
  let machine ← get
  return machine.locator machine.heap machine.environment machine.globals node name

/-- The value of a variable, which has to be defined. -/
def read (node : NodeId) (name : Token) : Exec Value := do
  let place ← locate node name.lexeme
  let heap := (← get).heap
  match place.bind (heap.get? · name.lexeme) with
  | some value => return value
  | none => fail name (.undefinedVariable name.lexeme)

/-- Gives a variable that is defined a new value. -/
def assign (node : NodeId) (name : Token) (value : Value) : Exec Unit := do
  match ← locate node name.lexeme with
  | some ref =>
      if (← get).heap.binds ref name.lexeme then
        modify (·.mapHeap (·.define ref name.lexeme value))
      else
        fail name (.undefinedVariable name.lexeme)
  | none => fail name (.undefinedVariable name.lexeme)

end Exec

end OffsideScript
