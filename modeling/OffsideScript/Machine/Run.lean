import OffsideScript.Compile
import OffsideScript.Machine.Evaluate

namespace OffsideScript

/-- Why a source text did not run to its end. -/
inductive Failure where
  | rejected (diagnostics : List Diagnostic)
  | failed (error : RuntimeError)
  | outOfFuel

def Failure.ofHalt : Halt → Failure
  | .error error => failed error
  | .outOfFuel => outOfFuel

namespace Machine

/-- The machine outside of all functions, loops and blocks. -/
def ready (machine : Machine) (locator : Locator) : Machine :=
  { machine with locator, environment := machine.globals, callDepth := 0, loopDepth := 0 }

/-- Runs a program in the global environment. The variables that it declares there stay. -/
def interpret (fuel : Nat) (program : Program) (locator : Locator) (machine : Machine) :
    Option Halt × Machine :=
  match Exec.executeProgram fuel program (machine.ready locator) with
  | .ok _ after => (none, after)
  | .error halt after => (some halt, after)

/-- Compiles a source text and runs it. -/
def run (fuel : Nat) (source : String) (machine : Machine) : Option Failure × Machine :=
  match compile source with
  | .error diagnostics => (some (.rejected diagnostics), machine)
  | .ok compiled =>
      let (halt, after) :=
        machine.interpret fuel compiled.program compiled.distances.locator
      (halt.map .ofHalt, after)

/-- Runs a source text in which every reference means a global variable. -/
def runUnresolved (fuel : Nat) (source : String) (machine : Machine) :
    Option Failure × Machine :=
  match parse source with
  | .error diagnostics => (some (.rejected diagnostics), machine)
  | .ok program =>
      let (halt, after) := machine.interpret fuel program Distances.empty.locator
      (halt.map .ofHalt, after)

end Machine

end OffsideScript
