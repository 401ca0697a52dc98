/-
This file turns pieces into tokens. Blocks follow the offside rule: a line that starts further right
than the block around it opens a block, and a line that starts further left closes blocks.
-/

import OffsideScript.Number.Text
import OffsideScript.Token.Piece

namespace OffsideScript

/-- The ways in which characters can fail to form tokens. -/
inductive LexicalError where
  | unexpectedCharacter (character : Char) (line : Nat)
  | unterminatedText (line : Nat)
  | unmatchedIndentation (width line : Nat)
  deriving DecidableEq, Repr

def LexicalError.line : LexicalError → Nat
  | unexpectedCharacter _ line => line
  | unterminatedText line => line
  | unmatchedIndentation _ line => line

def LexicalError.detail : LexicalError → String
  | unexpectedCharacter character _ =>
      "unexpected character '" ++ String.singleton character ++ "'"
  | unterminatedText _ => "unterminated string"
  | unmatchedIndentation width _ =>
      "indentation error, no open block is " ++ toString width ++ " columns wide"

def LexicalError.message (error : LexicalError) : String :=
  positioned error.line none error.detail

/-- Reading a source yields tokens and faults in the order in which they are met. -/
inductive Mark where
  | token (token : Token)
  | fault (error : LexicalError)

/-- The token of a mark. -/
def Mark.token? : Mark → Option Token
  | .token read => some read
  | .fault _ => none

def Mark.fault? : Mark → Option LexicalError
  | .token _ => none
  | .fault error => some error

/-- The mark of a token without a lexeme. -/
def Mark.structural (kind : Token.Kind) (line : Nat) : Mark :=
  token (Token.structural kind line)

namespace Piece

def tabWidth : Nat := 4

/-- The tokens and faults of a piece that starts on the given line. -/
def marks (line : Nat) : Piece → List Mark
  | symbol kind => [.token ⟨kind, kind.spelling, line, none⟩]
  | number text =>
      [.token ⟨.number, String.ofList text, line, some (.number (Number.ofDigits text))⟩]
  | word text =>
      let spelling := String.ofList text
      [.token ⟨(Token.Kind.keyword? spelling).getD .identifier, spelling, line, none⟩]
  | quoted content =>
      [.token ⟨.text, String.ofList (quoted content).text, line,
        some (.text (String.ofList content))⟩]
  | unclosed _ => [.fault (.unterminatedText line)]
  | stray character => [.fault (.unexpectedCharacter character line)]
  | lineEnd | space | tab | comment _ => []

def lineEnds (piece : Piece) : Nat :=
  piece.text.count '\n'

end Piece

/-- The widths of the open blocks, innermost first. The outermost level has width zero and is
not listed. -/
abbrev Margin := List Nat

namespace Margin

/-- The width of the innermost block. -/
def width (margin : Margin) : Nat :=
  margin.headD 0

/-- Closes the blocks that are wider than a line. -/
def close (column : Nat) : Margin → Margin
  | [] => []
  | width :: enclosing => if column < width then close column enclosing else width :: enclosing

/-- The margin after a line that starts at a column, with the tokens and faults that its start
gives. -/
def enter (margin : Margin) (column line : Nat) : Margin × List Mark :=
  if margin.width < column then
    (column :: margin, [.structural .indent line])
  else
    let remaining := margin.close column
    let dedents := List.replicate (margin.length - remaining.length) (Mark.structural .dedent line)
    let faults := if remaining.width = column then [] else
      [Mark.fault (.unmatchedIndentation column line)]
    (remaining, dedents ++ faults)

/-- At the end of the source the last line ends and all blocks close. -/
def finish (margin : Margin) (line : Nat) : List Mark :=
  .structural .newline line ::
    List.replicate margin.length (.structural .dedent line) ++ [.structural .endOfFile line]

/-- Reads pieces in order. The column is known only from a line end up to the first piece of the
line that is neither a blank nor a comment. -/
def read (margin : Margin) (line : Nat) (column : Option Nat) : List Piece → List Mark
  | [] => margin.finish line
  | .lineEnd :: rest => .structural .newline line :: read margin (line + 1) (some 0) rest
  | .space :: rest => read margin line (column.map (· + 1)) rest
  | .tab :: rest => read margin line (column.map (· + Piece.tabWidth)) rest
  | .comment _ :: rest => read margin line none rest
  | piece :: rest =>
      let (entered, shifts) := match column with
        | some column => margin.enter column line
        | none => (margin, [])
      shifts ++ piece.marks line ++ read entered (line + piece.lineEnds) none rest

end Margin

/-- The blanks before the first line are not measured. -/
def Mark.ofSource (source : List Char) : List Mark :=
  Margin.read [] 1 none (Piece.ofSource source)

end OffsideScript
