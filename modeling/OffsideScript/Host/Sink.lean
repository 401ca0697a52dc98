namespace OffsideScript

/-- A sink with a limit keeps no bytes beyond it. -/
structure Sink where
  written : ByteArray
  limit : Option Nat

namespace Sink

def empty (limit : Option Nat) : Sink := ⟨.empty, limit⟩

/-- Keeps what fits of a text and tells whether all of it did. -/
def write (sink : Sink) (text : String) : Bool × Sink :=
  let bytes := text.toUTF8
  match sink.limit with
  | none => (true, { sink with written := sink.written ++ bytes })
  | some limit =>
      let room := limit - sink.written.size
      if bytes.size ≤ room then (true, { sink with written := sink.written ++ bytes })
      else (false, { sink with written := sink.written ++ bytes.extract 0 room })

end Sink

end OffsideScript
