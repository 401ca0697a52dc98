import OffsideScript.Text.LineEnds
import OffsideScript.Text.WhiteSpace

namespace OffsideScript.Text

/-- Outputs are compared without the white space at their end and with one form of line end. -/
def normalizeOutput (output : String) : String :=
  String.ofList (trimEnd (joinLineEnds output.toList))

/-- Whether a text occurs in another one. -/
def occursIn (sought : List Char) : List Char → Bool
  | [] => sought.isEmpty
  | character :: rest =>
      sought.isPrefixOf (character :: rest) || occursIn sought rest

/-- What the output of a program is compared with. -/
inductive Expectation where
  | exact (expected : String)
  | contains (expected : String)

/-- Of an exact text the white space at its end does not count, and of a part none around it. -/
def Expectation.matches (expectation : Expectation) (actual : String) : Bool :=
  match expectation with
  | exact expected => normalizeOutput expected == normalizeOutput actual
  | contains expected => occursIn (trim expected.toList) actual.toList

end OffsideScript.Text
