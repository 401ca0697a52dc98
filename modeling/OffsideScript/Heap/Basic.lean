/-
This file defines the heap, which holds everything that values refer to, and the environments in which
variables live.
-/

import OffsideScript.Tree.Basic
import OffsideScript.Value.Basic
import OffsideScript.Value.OrderedMap

namespace OffsideScript

instance : MapKey Value where
  same := Value.keyEquals
  hash value := hash value.key

structure EnvironmentRef where
  index : Nat
  deriving DecidableEq, Repr, Inhabited

/-- A function remembers the environment in which it was declared. -/
structure Closure where
  name : Token
  parameters : List Token
  body : List Statement
  environment : EnvironmentRef

/-- The variables of one scope. -/
abbrev Bindings := List (String × Value)

namespace Bindings

/-- The value of a name in some bindings. -/
def get? (bindings : Bindings) (name : String) : Option Value :=
  bindings.lookup name

/-- Binds a name, whether or not it is bound already. -/
def define (name : String) (value : Value) : Bindings → Bindings
  | [] => [(name, value)]
  | (bound, current) :: rest =>
      if bound == name then (name, value) :: rest
      else (bound, current) :: define name value rest

end Bindings

/-- Binds the parameters of a function to the arguments of a call. -/
def Closure.bindings (closure : Closure) (arguments : List Value) : Bindings :=
  (closure.parameters.zip arguments).foldl
    (fun bindings (parameter, argument) => Bindings.define parameter.lexeme argument bindings) []

/-- The variables of a scope and the environment around it. -/
structure Environment where
  bindings : Bindings
  parent : Option EnvironmentRef

/-- Arrays, maps, functions and environments, each kind numbered in the order of its making. -/
structure Heap where
  arrays : Array (Array Value)
  maps : Array (OrderedMap Value Value)
  functions : Array Closure
  environments : Array Environment

namespace Heap

def empty : Heap := ⟨#[], #[], #[], #[]⟩

def array (heap : Heap) (ref : ArrayRef) : Array Value :=
  heap.arrays.getD ref.index #[]

def map (heap : Heap) (ref : MapRef) : OrderedMap Value Value :=
  heap.maps.getD ref.index .empty

def closure? (heap : Heap) (ref : FunctionRef) : Option Closure :=
  heap.functions[ref.index]?

/-- A new array comes after all others. -/
def newArray (heap : Heap) (elements : Array Value) : Value × Heap :=
  (.array ⟨heap.arrays.size⟩, { heap with arrays := heap.arrays.push elements })

def newMap (heap : Heap) (map : OrderedMap Value Value) : Value × Heap :=
  (.map ⟨heap.maps.size⟩, { heap with maps := heap.maps.push map })

/-- A new function comes after all others. -/
def newFunction (heap : Heap) (closure : Closure) : Value × Heap :=
  (.function ⟨heap.functions.size⟩, { heap with functions := heap.functions.push closure })

/-- A new environment comes after all others. -/
def newEnvironment (heap : Heap) (environment : Environment) : EnvironmentRef × Heap :=
  (⟨heap.environments.size⟩,
    { heap with environments := heap.environments.push environment })

def setElement (heap : Heap) (ref : ArrayRef) (position : Nat) (value : Value) : Heap :=
  { heap with arrays := heap.arrays.modify ref.index (·.setIfInBounds position value) }

def pushElement (heap : Heap) (ref : ArrayRef) (value : Value) : Heap :=
  { heap with arrays := heap.arrays.modify ref.index (·.push value) }

def insertEntry (heap : Heap) (ref : MapRef) (key value : Value) : Heap :=
  { heap with maps := heap.maps.modify ref.index (·.insert key value) }

/-- Gives a name a value in an environment, where it may have had one. -/
def define (heap : Heap) (ref : EnvironmentRef) (name : String) (value : Value) : Heap :=
  { heap with
    environments := heap.environments.modify ref.index fun environment =>
      { environment with bindings := environment.bindings.define name value } }

/-- The value of a name in one environment, without those around it. -/
def get? (heap : Heap) (ref : EnvironmentRef) (name : String) : Option Value :=
  heap.environments[ref.index]?.bind (·.bindings.get? name)

/-- Whether an environment has a name of its own. -/
def binds (heap : Heap) (ref : EnvironmentRef) (name : String) : Bool :=
  (heap.get? ref name).isSome

/-- Gives a new value to a name that the environment binds. -/
def assign? (heap : Heap) (ref : EnvironmentRef) (name : String) (value : Value) : Option Heap :=
  if heap.binds ref name then some (heap.define ref name value) else none

/-- The environment around an environment. -/
def parent? (heap : Heap) (ref : EnvironmentRef) : Option EnvironmentRef :=
  heap.environments[ref.index]?.bind (·.parent)

/-- The environment that lies a number of environments further out. -/
def ancestor? (heap : Heap) (ref : EnvironmentRef) : Nat → Option EnvironmentRef
  | 0 => some ref
  | distance + 1 => (heap.parent? ref).bind fun parent => heap.ancestor? parent distance

/-- The innermost of the nearest environments that binds a name. -/
def innermost? (heap : Heap) (name : String) : Nat → EnvironmentRef → Option EnvironmentRef
  | 0, _ => none
  | limit + 1, ref =>
      if heap.binds ref name then some ref
      else (heap.parent? ref).bind (heap.innermost? name limit)

end Heap

end OffsideScript
