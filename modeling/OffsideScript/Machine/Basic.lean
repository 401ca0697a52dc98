import OffsideScript.Host.Sink
import OffsideScript.Machine.Error
import OffsideScript.Machine.Locator

namespace OffsideScript

/-- The state of a running program. -/
structure Machine where
  host : Host
  sink : Sink
  library : Array Builtin
  locator : Locator
  globals : EnvironmentRef
  environment : EnvironmentRef
  callDepth : Nat
  loopDepth : Nat

/-- More calls than this do not nest. -/
def Machine.maxCallDepth : Nat := 2048

namespace Machine

def heap (machine : Machine) : Heap := machine.host.heap

@[inline] def mapHeap (machine : Machine) (change : Heap → Heap) : Machine :=
  { machine with host.heap := change machine.host.heap }

/-- Makes a builtin available under its name. -/
def install (machine : Machine) (builtin : Builtin) : Machine :=
  let ref : BuiltinRef := ⟨builtin.name, builtin.arity, machine.library.size⟩
  { machine with library := machine.library.push builtin }.mapHeap
    (·.define machine.globals builtin.name (.builtin ref))

/-- A machine with only a global environment. -/
def bare (files : FileSystem) (clock : Clock) (sink : Sink) : Machine :=
  let (globals, heap) := Heap.empty.newEnvironment ⟨[], none⟩
  { host := ⟨heap, files, clock⟩
    sink
    library := #[]
    locator := Distances.empty.locator
    globals
    environment := globals
    callDepth := 0
    loopDepth := 0 }

/-- A machine with the standard builtins. -/
def start (files : FileSystem) (clock : Clock) (sink : Sink) : Machine :=
  Builtin.standard.foldl install (bare files clock sink)

end Machine

end OffsideScript
