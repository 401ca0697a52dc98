namespace OffsideScript.Text

/-- A carriage return before a line feed is dropped. -/
def joinLineEnds : List Char → List Char
  | [] => []
  | '\r' :: '\n' :: rest => '\n' :: joinLineEnds rest
  | character :: rest => character :: joinLineEnds rest

/-- Every line end becomes a line feed. A carriage return on its own ends a line too. -/
def unifyLineEnds (text : List Char) : List Char :=
  (joinLineEnds text).map fun character => if character = '\r' then '\n' else character

end OffsideScript.Text
