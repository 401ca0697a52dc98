import OffsideScript.Token.Basic

namespace OffsideScript

/-- What a text is cut into. -/
inductive Piece where
  | lineEnd
  | space
  | tab
  | comment (body : List Char)
  | symbol (kind : Token.Kind)
  | number (text : List Char)
  | word (text : List Char)
  | quoted (content : List Char)
  | unclosed (content : List Char)
  | stray (character : Char)
  deriving DecidableEq, Repr

namespace Piece

/-- The part of the source that a piece covers. -/
def text : Piece → List Char
  | lineEnd => ['\n']
  | space => [' ']
  | tab => ['\t']
  | comment body => '#' :: body
  | symbol kind => kind.spelling.toList
  | number text => text
  | word text => text
  | quoted content => '\'' :: content ++ ['\'']
  | unclosed content => '\'' :: content
  | stray character => [character]

def isWordStart (character : Char) : Bool :=
  character.isAlpha || character == '_'

def isWordPart (character : Char) : Bool :=
  character.isAlphanum || character == '_'

/-- A symbol takes a second character where the two form a symbol. -/
def symbolAt? (character : Char) (rest : List Char) : Option Token.Kind :=
  match character with
  | ':' => some .colon
  | ',' => some .comma
  | '(' => some .leftParen
  | ')' => some .rightParen
  | '[' => some .leftBracket
  | ']' => some .rightBracket
  | '\x7b' => some .leftBrace
  | '\x7d' => some .rightBrace
  | '?' => some .question
  | '-' => some .minus
  | '*' => some .star
  | '/' => some .slash
  | '^' => some .caret
  | '%' => some .percent
  | '+' => some (if rest.head? = some '+' then .plusPlus else .plus)
  | '!' => some (if rest.head? = some '=' then .bangEqual else .bang)
  | '=' =>
      some (if rest.head? = some '=' then .equalEqual
        else if rest.head? = some '>' then .fatArrow
        else .equal)
  | '>' => some (if rest.head? = some '=' then .greaterEqual else .greater)
  | '<' => some (if rest.head? = some '=' then .lessEqual else .less)
  | _ => none

/-- A point belongs to a number only when a digit follows it. -/
def numberAt (text : List Char) : List Char :=
  let whole := text.takeWhile Char.isDigit
  match text.drop whole.length with
  | '.' :: fraction =>
      match fraction.takeWhile Char.isDigit with
      | [] => whole
      | digits => whole ++ '.' :: digits
  | _ => whole

/-- The piece that starts at a character and is followed by the rest of the source. -/
def startingAt (character : Char) (rest : List Char) : Piece :=
  if character = '\n' then lineEnd
  else if character = ' ' then space
  else if character = '\t' then tab
  else if character = '#' then comment (rest.takeWhile (· ≠ '\n'))
  else if character = '\'' then
    let content := rest.takeWhile (· ≠ '\'')
    if content.length < rest.length then quoted content else unclosed content
  else if character.isDigit then number (numberAt (character :: rest))
  else if isWordStart character then word (character :: rest.takeWhile isWordPart)
  else
    match symbolAt? character rest with
    | some kind => symbol kind
    | none => stray character

/-- Cuts a text after skipping the characters that the piece before still covers. -/
def cut : Nat → List Char → List Piece
  | _, [] => []
  | skipped + 1, _ :: rest => cut skipped rest
  | 0, character :: rest =>
      let piece := startingAt character rest
      piece :: cut (piece.text.length - 1) rest

/-- The pieces of a text. -/
def ofSource (source : List Char) : List Piece :=
  cut 0 source

end Piece

end OffsideScript
