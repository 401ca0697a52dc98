import OffsideScript.Token.Basic

namespace OffsideScript

/-- Each reference to a variable in a program has a number of its own. -/
abbrev NodeId := Nat

/-- Values that are written out in a program. -/
inductive Constant where
  | nihl
  | boolean (value : Bool)
  | number (value : Number)
  | text (value : String)

inductive UnaryOperator where
  | negate
  | not
  deriving DecidableEq, Repr

inductive BinaryOperator where
  | sequence
  | concat
  | add
  | subtract
  | multiply
  | divide
  | remainder
  | power
  | equal
  | notEqual
  | less
  | lessEqual
  | greater
  | greaterEqual
  deriving DecidableEq, Repr

inductive LogicalOperator where
  | and
  | or
  | xor
  deriving DecidableEq, Repr

/-- Operators, brackets and names keep their tokens. A message about a node that fails when it runs points to
one. -/
inductive Expression where
  | constant (value : Constant)
  | group (inner : Expression)
  | unary (operator : UnaryOperator) (token : Token) (operand : Expression)
  | binary (operator : BinaryOperator) (token : Token) (left right : Expression)
  | logical (operator : LogicalOperator) (token : Token) (left right : Expression)
  | conditional (condition whenTrue whenFalse : Expression)
  | variable (node : NodeId) (name : Token)
  | assign (node : NodeId) (name : Token) (value : Expression)
  | array (elements : List Expression)
  | map (entries : List (Expression × Expression))
  | call (callee : Expression) (closing : Token) (arguments : List Expression)
  | index (object : Expression) (bracket : Token) (position : Expression)
  | setIndex (object : Expression) (bracket : Token) (position value : Expression)

/-- The statements of which a parser makes programs. A block stands nowhere but as the body of a branch, of a loop or
of a function, so blocks are no statements of their own but lists of statements, each with a scope of its own. The
last branch of a chain may have the constant true as its condition. -/
inductive Statement where
  | print (keyword : Token) (value : Expression)
  | evaluate (value : Expression)
  | declare (name : Token) (initial : Option Expression)
  | branch (branches : List (Expression × List Statement))
  | loop (condition : Expression) (body : List Statement)
  | function (name : Token) (parameters : List Token) (body : List Statement)
  | ret (keyword : Token) (value : Option Expression)
  | breakLoop (keyword : Token)
  | continueLoop (keyword : Token)

/-- A program is a list of statements. -/
abbrev Program := List Statement

def UnaryOperator.symbol : UnaryOperator → String
  | negate => "-"
  | not => "!"

def BinaryOperator.symbol : BinaryOperator → String
  | sequence => ","
  | concat => "++"
  | add => "+"
  | subtract => "-"
  | multiply => "*"
  | divide => "/"
  | remainder => "%"
  | power => "^"
  | equal => "=="
  | notEqual => "!="
  | less => "<"
  | lessEqual => "<="
  | greater => ">"
  | greaterEqual => ">="

def LogicalOperator.symbol : LogicalOperator → String
  | and => "and"
  | or => "or"
  | xor => "xor"

end OffsideScript
