import OffsideScript.Text.Printable

namespace OffsideScript.Text

def hexadecimal (number : Nat) : String :=
  String.ofList (Nat.toDigits 16 number)

/-- A character as it is written inside of quotes. -/
def escape (character : Char) : String :=
  match character with
  | '\x00' => "\\0"
  | '\t' => "\\t"
  | '\n' => "\\n"
  | '\r' => "\\r"
  | '"' => "\\\""
  | '\\' => "\\\\"
  | _ =>
      if isPrintable character then String.singleton character
      else "\\u\x7b" ++ hexadecimal character.toNat ++ "\x7d"

/-- A text in quotes with its special characters escaped. -/
def quoted (text : String) : String :=
  "\"" ++ String.join (text.toList.map escape) ++ "\""

end OffsideScript.Text
