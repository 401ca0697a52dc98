import OffsideScript.Number.Shortest

namespace OffsideScript.Number

def zeros (count : Nat) : String :=
  String.ofList (List.replicate count '0')

/-- The point stands where the exponent puts it. -/
def Decimal.positional (decimal : Decimal) : String :=
  let digits := Nat.toDigits 10 decimal.digits
  match decimal.exponent with
  | .ofNat shift => String.ofList digits ++ zeros shift
  | .negSucc shift =>
      let places := shift + 1
      if places < digits.length then
        String.ofList (digits.take (digits.length - places)) ++ "." ++
          String.ofList (digits.drop (digits.length - places))
      else
        "0." ++ zeros (places - digits.length) ++ String.ofList digits

def signText (number : Number) : String :=
  if isNegative number then "-" else ""

/-- The shortest digits of a number without its sign. -/
def magnitudeText (number : Number) : String :=
  if isZero number then "0" else (parts number).shortest.positional

/-- The text of a literal, which shows the sign of a zero. -/
def literalText (number : Number) : String :=
  if isNaN number then "NaN"
  else if isFinite number then signText number ++ magnitudeText number
  else signText number ++ "inf"

/-- The text that a running program shows. -/
def text (number : Number) : String :=
  if isNaN number then "NaN"
  else if !isFinite number then signText number ++ "Infinity"
  else if isZero number then "0"
  else signText number ++ magnitudeText number

/-- The number that digits stand for. -/
def digitsValue (digits : List Char) : Nat :=
  digits.foldl (fun value digit => 10 * value + (digit.toNat - '0'.toNat)) 0

/-- Reads digits with an optional fraction. -/
def ofDigits (text : List Char) : Number :=
  let whole := text.takeWhile Char.isDigit
  let fraction := (text.drop whole.length).drop 1
  .ofFloat <| .ofScientific (digitsValue (whole ++ fraction)) true fraction.length

end OffsideScript.Number
