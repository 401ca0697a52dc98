import OffsideScript.Number.Bits

namespace OffsideScript

/-- The kinds of tokens. Those of lines, blocks and the end of the file have no spelling. -/
inductive Token.Kind where
  | colon | comma
  | leftParen | rightParen | leftBracket | rightBracket | leftBrace | rightBrace
  | question
  | plus | plusPlus | minus | star | slash | caret | percent
  | bang | bangEqual | equal | equalEqual | fatArrow
  | greater | greaterEqual | less | lessEqual
  | identifier | text | number
  | andWord | orWord | xorWord | ifWord | elifWord | elseWord | trueWord | falseWord
  | funcWord | retWord | letWord | whileWord | printWord | nihlWord | breakWord | continueWord
  | newline | indent | dedent | endOfFile
  deriving DecidableEq, Repr, Inhabited

namespace Token.Kind

/-- Tokens whose text varies, and tokens without text, have no fixed spelling. -/
def spelling : Kind → String
  | colon => ":" | comma => ","
  | leftParen => "(" | rightParen => ")"
  | leftBracket => "[" | rightBracket => "]"
  | leftBrace => "\x7b" | rightBrace => "\x7d"
  | question => "?"
  | plus => "+" | plusPlus => "++" | minus => "-" | star => "*" | slash => "/"
  | caret => "^" | percent => "%"
  | bang => "!" | bangEqual => "!=" | equal => "=" | equalEqual => "==" | fatArrow => "=>"
  | greater => ">" | greaterEqual => ">=" | less => "<" | lessEqual => "<="
  | andWord => "and" | orWord => "or" | xorWord => "xor"
  | ifWord => "if" | elifWord => "elif" | elseWord => "else"
  | trueWord => "true" | falseWord => "false"
  | funcWord => "func" | retWord => "ret" | letWord => "let" | whileWord => "while"
  | printWord => "print" | nihlWord => "nihl"
  | breakWord => "break" | continueWord => "continue"
  | identifier | text | number | newline | indent | dedent | endOfFile => ""

def keywords : List Kind :=
  [andWord, orWord, xorWord, ifWord, elifWord, elseWord, trueWord, falseWord,
    funcWord, retWord, letWord, whileWord, printWord, nihlWord, breakWord, continueWord]

def keyword? (word : String) : Option Kind :=
  keywords.find? fun kind => kind.spelling == word

end Token.Kind

/-- The value that a token carries. -/
inductive Literal where
  | number (value : Number)
  | text (value : String)

/-- A lexeme with its kind and the line that it starts on. -/
structure Token where
  kind : Token.Kind
  lexeme : String
  line : Nat
  literal : Option Literal

/-- A token that marks structure has no text. -/
def Token.structural (kind : Token.Kind) (line : Nat) : Token :=
  ⟨kind, "", line, none⟩

/-- Where on its line an error is. -/
inductive Location where
  | lexeme (text : String)
  | endOfLine
  | endOfFile
  | indent
  | dedent
  deriving DecidableEq, Repr

/-- A token is located by its lexeme if it has one. -/
def Token.location (token : Token) : Location :=
  match token.kind with
  | .endOfFile => .endOfFile
  | .newline => .endOfLine
  | .indent => .indent
  | .dedent => .dedent
  | _ => .lexeme token.lexeme

def Location.message : Location → String
  | .lexeme text => "at '" ++ text ++ "'"
  | .endOfLine => "at end of line"
  | .endOfFile => "at end of file"
  | .indent => "at indent"
  | .dedent => "at dedent"

/-- Every message names its line and, where there is a token, its place. -/
def positioned (line : Nat) (location : Option Location) (detail : String) : String :=
  let place := match location with
    | some location => " " ++ location.message
    | none => ""
  "Error [line " ++ toString line ++ "]" ++ place ++ ": " ++ detail

end OffsideScript
