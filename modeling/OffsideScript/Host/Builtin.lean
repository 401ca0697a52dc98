import OffsideScript.Heap.Basic
import OffsideScript.Host.Clock
import OffsideScript.Host.FileSystem

namespace OffsideScript

/-- What builtins work on. -/
structure Host where
  heap : Heap
  files : FileSystem
  clock : Clock

/-- The ways in which a builtin can fail. -/
inductive BuiltinError where
  | type (builtin detail : String)
  | access (builtin path : String) (error : FileError)
  deriving DecidableEq, Repr

def BuiltinError.detail : BuiltinError → String
  | type builtin detail => builtin ++ ": " ++ detail
  | access builtin path error =>
      builtin ++ ": cannot access '" ++ path ++ "': " ++ error.message

/-- The machine checks the number of arguments before it calls a builtin. -/
structure Builtin where
  name : String
  arity : Nat
  action : List Value → EStateM BuiltinError Host Value

namespace Builtin

def newArray (elements : Array Value) : EStateM BuiltinError Host Value := do
  let host ← get
  let (value, heap) := host.heap.newArray elements
  set { host with heap := heap }
  return value

/-- Fails at a value of the wrong type. -/
def wrongType {α : Type} (builtin wanted : String) (found : Value) :
    EStateM BuiltinError Host α :=
  throw (.type builtin (wanted ++ ", got " ++ found.typeName))

/-- Takes an argument that has to be a text. -/
def expectText (builtin argument : String) : Value → EStateM BuiltinError Host String
  | .text value => return value
  | value => wrongType builtin (argument ++ " must be a string") value

/-- Changes the file that a path names. -/
def changeFile (builtin : String)
    (change : FileSystem → String → ByteArray → Except FileError FileSystem)
    (path content : Value) : EStateM BuiltinError Host Value := do
  let path ← expectText builtin "path" path
  let content ← expectText builtin "content" content
  let host ← get
  match change host.files path content.toUTF8 with
  | .ok files =>
      set { host with files := files }
      return .nihl
  | .error error => throw (.access builtin path error)

/-- The number of characters of a text or of elements of an array. -/
def len : Builtin where
  name := "len"
  arity := 1
  action arguments := do
    match arguments.headD .nihl with
    | .text value => return .number (.ofNat value.length)
    | .array ref => return .number (.ofNat ((← get).heap.array ref).size)
    | value => wrongType "len" "expected a string or an array" value

def typeOf : Builtin where
  name := "typeof"
  arity := 1
  action arguments := return .text (arguments.headD .nihl).typeName

def clock : Builtin where
  name := "clock"
  arity := 0
  action _ := do
    let host ← get
    let (moment, clock) := host.clock.read
    set { host with clock := clock }
    return .number (.ofNat moment)

/-- A file that is not there reads as nihl. -/
def readFile : Builtin where
  name := "readFile"
  arity := 1
  action arguments := do
    let path ← expectText "readFile" "path" (arguments.headD .nihl)
    match (← get).files.readText path with
    | .ok content => return .text content
    | .error .notFound => return .nihl
    | .error error => throw (.access "readFile" path error)

def writeFile : Builtin where
  name := "writeFile"
  arity := 2
  action arguments :=
    changeFile "writeFile" FileSystem.write (arguments.getD 0 .nihl) (arguments.getD 1 .nihl)

def appendFile : Builtin where
  name := "appendFile"
  arity := 2
  action arguments :=
    changeFile "appendFile" FileSystem.append (arguments.getD 0 .nihl) (arguments.getD 1 .nihl)

/-- The builtins that every machine starts with. -/
def standard : List Builtin :=
  [len, typeOf, clock, readFile, writeFile, appendFile]

end Builtin

end OffsideScript
