import OffsideScript.Token.Basic

namespace OffsideScript

/-- What a line end was expected after. -/
inductive LineContext where
  | printStatement
  | letStatement
  | retStatement
  | expressionStatement
  | breakWord
  | continueWord
  deriving DecidableEq, Repr

/-- What a block was expected after. -/
inductive BlockContext where
  | ifWord
  | elifWord
  | elseWord
  | whileWord
  | functionDeclaration
  deriving DecidableEq, Repr

/-- The ways in which tokens can fail to form a program. -/
inductive GrammarError.Reason where
  | lineEnd (context : LineContext)
  | block (context : BlockContext)
  | blockEnd
  | variableName
  | functionName
  | parametersStart
  | parameterName
  | parametersEnd
  | conditionalColon
  | argumentsEnd
  | indexEnd
  | groupEnd
  | arrayEnd
  | mapArrow
  | mapEnd
  | assignmentTarget
  | malformedLiteral
  | unexpectedToken
  deriving DecidableEq, Repr

/-- A reason with the place of the token at which it was found. -/
structure GrammarError where
  line : Nat
  location : Location
  reason : GrammarError.Reason
  deriving DecidableEq, Repr

def GrammarError.at (token : Token) (reason : GrammarError.Reason) : GrammarError :=
  ⟨token.line, token.location, reason⟩

def LineContext.name : LineContext → String
  | printStatement => "print statement"
  | letStatement => "let statement"
  | retStatement => "ret statement"
  | expressionStatement => "expression statement"
  | breakWord => "'break'"
  | continueWord => "'continue'"

def BlockContext.name : BlockContext → String
  | ifWord => "if"
  | elifWord => "elif"
  | elseWord => "else"
  | whileWord => "while"
  | functionDeclaration => "function declaration"

/-- What is said about a reason. -/
def GrammarError.Reason.detail : GrammarError.Reason → String
  | lineEnd context => "expect new line after " ++ context.name
  | block context => "expect indented block after " ++ context.name
  | blockEnd => "expect end of block"
  | variableName => "expect variable name after 'let'"
  | functionName => "expect function name after 'func'"
  | parametersStart => "expect '(' after function name"
  | parameterName => "expect parameter name"
  | parametersEnd => "expect ')' after parameters"
  | conditionalColon => "expect ':' after '?' in ternary expression"
  | argumentsEnd => "expect ')' after arguments"
  | indexEnd => "expect ']' after index"
  | groupEnd => "expect ')' after expression"
  | arrayEnd => "expect ']' after array literal"
  | mapArrow => "expect '=>' after map key"
  | mapEnd => "expect '\x7d' after map literal"
  | assignmentTarget => "invalid assignment target"
  | malformedLiteral => "malformed literal"
  | unexpectedToken => "unexpected token"

def GrammarError.message (error : GrammarError) : String :=
  positioned error.line (some error.location) error.reason.detail

end OffsideScript
