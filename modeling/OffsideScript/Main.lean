import OffsideScript.CommandLine
import Std.Time.DateTime.Timestamp

namespace OffsideScript.CommandLine

def absolutePath (place : Place) : String :=
  "/" ++ String.intercalate "/" place

/-- What is at a place of the disk. -/
def load (place : Place) : IO FileSystem.Entry := do
  try
    return .file (← IO.FS.readBinFile (absolutePath place))
  catch
    | .noFileOrDirectory .. => return .absent
    | .inappropriateType .. => return .directory
    | error => return .unreadable (.refused (toString error))

/-- The files that a run has changed. -/
def changes (before after : FileSystem) : List (Place × ByteArray) :=
  after.entries.filterMap fun (place, entry) =>
    match entry, before.entry place with
    | .file content, .file loaded => if content == loaded then none else some (place, content)
    | .file content, _ => some (place, content)
    | _, _ => none

/-- Opens the files that a run has changed and finds one that cannot be written. -/
def refusal? (before after : FileSystem) : IO (Option (Place × FileSystem.Entry)) :=
  (changes before after).findSomeM? fun (place, _) => do
    try
      let _ ← IO.FS.Handle.mk (absolutePath place) .append
      return none
    catch error =>
      let content := match before.entry place with
        | .file content => some content
        | _ => none
      return some (place, .unwritable content (.refused (toString error)))

/-- Runs are repeated with more fuel and with what they were found to need of the files. A repeated run reads
the same moments from the clock and writes the same bytes again, so only new ones are shown. -/
partial def serve (fuel : Nat) (arguments : List String) (input : ByteArray) (moments : Array Nat)
    (files : FileSystem) (shown : Nat) : IO UInt32 := do
  let now ← Std.Time.Timestamp.now
  let clock := Clock.resumed moments now.toMillisecondsSinceUnixEpoch.val.toNat
  let (ending, after) := run fuel arguments input (.start files clock (.empty none))
  let moments := (Array.range after.host.clock.taken).map after.host.clock.reading
  if let some (place, entry) ← refusal? files after.host.files then
    return ← serve fuel arguments input moments (files.put place entry) shown
  let output ← IO.getStdout
  let written := after.sink.written
  output.write (written.extract shown written.size)
  output.flush
  let shown := max shown written.size
  match ending with
  | .unloaded place =>
      serve fuel arguments input moments (files.put place (← load place)) shown
  | .outOfFuel => serve (2 * fuel) arguments input moments files shown
  | .exit code complaint =>
      (changes files after.host.files).forM fun (place, content) =>
        IO.FS.writeBinFile (absolutePath place) content
      IO.eprint complaint
      return code.toUInt32

end OffsideScript.CommandLine

open OffsideScript CommandLine in
/-- Runs the command line program on the disk. -/
def main (arguments : List String) : IO UInt32 := do
  let input ← match origin arguments with
    | .ok .standardInput => (← IO.getStdin).readBinToEnd
    | _ => pure ByteArray.empty
  let directory := (Path.splitNames (← IO.currentDir).toString.toList).filter (!·.isEmpty)
  serve (Nat.pow 2 20) arguments input #[] ⟨[], directory.map String.ofList, false⟩ 0
