import OffsideScript.Machine.Run

namespace OffsideScript.CommandLine

/-- How the command line is to be used. -/
def usage : String := "usage: lamp <path>"

/-- Where a source text comes from. -/
inductive Origin where
  | standardInput
  | file (path : String)
  deriving DecidableEq, Repr

/-- The single argument is a path, or a dash for the standard input. -/
def origin : List String → Except String Origin
  | [argument] =>
      if argument == "-" then .ok .standardInput
      else if argument.startsWith "-" then .error ("unknown option '" ++ argument ++ "'\n" ++ usage)
      else .ok (.file argument)
  | _ => .error usage

def Origin.name : Origin → String
  | standardInput => "stdin"
  | file path => path

/-- The source text, if it can be read as text. -/
def Origin.read (origin : Origin) (input : ByteArray) (files : FileSystem) :
    Except FileError String :=
  match origin with
  | standardInput =>
      match String.fromUTF8? input with
      | some source => .ok source
      | none => .error .notText
  | file path => files.readText path

/-- A run that meets a place that is not loaded, or runs out of fuel, has to be run again. -/
inductive Ending where
  | exit (code : Nat) (complaint : String)
  | unloaded (place : Place)
  | outOfFuel

namespace Ending

/-- Ends with a line of complaint. -/
def complain (code : Nat) (message : String) : Ending :=
  exit code (message ++ "\n")

/-- How the program ends when its source text cannot be read. -/
def ofFileError (origin : Origin) : FileError → Ending
  | .unloaded place => unloaded place
  | error => complain 1 ("Reading " ++ origin.name ++ ": " ++ error.message)

/-- How the program ends when its source text was rejected or failed. -/
def ofFailure : Option Failure → Ending
  | none => exit 0 ""
  | some (.rejected diagnostics) => complain 1 (Diagnostic.report diagnostics)
  | some (.failed error) =>
      match error.reason with
      | .builtin (.access _ _ (.unloaded place)) => unloaded place
      | _ => complain 1 error.message
  | some .outOfFuel => outOfFuel

end Ending

/-- Runs the source text that the arguments name. -/
def run (fuel : Nat) (arguments : List String) (input : ByteArray) (machine : Machine) :
    Ending × Machine :=
  match origin arguments with
  | .error message => (.complain 2 message, machine)
  | .ok origin =>
      match origin.read input machine.host.files with
      | .error error => (.ofFileError origin error, machine)
      | .ok source =>
          let (failure, after) := machine.run fuel source
          (.ofFailure failure, after)

end OffsideScript.CommandLine
