import OffsideScript.Number.Text
import OffsideScript.Tree.Basic

namespace OffsideScript

/-- The text of a constant. -/
def Constant.display : Constant → String
  | nihl => "nihl"
  | boolean value => if value then "true" else "false"
  | number value => Number.literalText value
  | text value => "'" ++ value ++ "'"

/-- Parts in parentheses with blanks between them. -/
def form (parts : List String) : String :=
  "(" ++ String.intercalate " " parts ++ ")"

mutual

/-- An expression as nested forms. -/
def Expression.display : Expression → String
  | .constant value => value.display
  | .group inner => form ["group", inner.display]
  | .unary operator _ operand => form [operator.symbol, operand.display]
  | .binary operator _ left right => form [operator.symbol, left.display, right.display]
  | .logical operator _ left right => form [operator.symbol, left.display, right.display]
  | .conditional condition whenTrue whenFalse =>
      form ["?", condition.display, whenTrue.display, whenFalse.display]
  | .variable _ name => name.lexeme
  | .assign _ name value => form ["=", name.lexeme, value.display]
  | .array elements => form ("array" :: displayAll elements)
  | .map entries => form ("map" :: displayEntries entries)
  | .call callee _ arguments => form ("call" :: callee.display :: displayAll arguments)
  | .index object _ position => form ["index", object.display, position.display]
  | .setIndex object _ position value =>
      form ["set-index", object.display, position.display, value.display]

def Expression.displayAll : List Expression → List String
  | [] => []
  | expression :: rest => expression.display :: displayAll rest

def Expression.displayEntries : List (Expression × Expression) → List String
  | [] => []
  | (key, value) :: rest => form [key.display, value.display] :: displayEntries rest

end

mutual

/-- A statement as nested forms. -/
def Statement.display : Statement → String
  | .print _ value => form ["print", value.display]
  | .evaluate value => form ["expr", value.display]
  | .declare name none => form ["let", name.lexeme]
  | .declare name (some initial) => form ["let", name.lexeme, initial.display]
  | .branch branches => form ("if" :: displayBranches branches)
  | .loop condition body => form ["while", condition.display, form ("block" :: displayAll body)]
  | .function name parameters body =>
      form ("func" :: name.lexeme :: form (parameters.map (·.lexeme)) :: displayAll body)
  | .ret _ none => form ["ret"]
  | .ret _ (some value) => form ["ret", value.display]
  | .breakLoop _ => form ["break"]
  | .continueLoop _ => form ["continue"]

def Statement.displayAll : List Statement → List String
  | [] => []
  | statement :: rest => statement.display :: displayAll rest

def Statement.displayBranches : List (Expression × List Statement) → List String
  | [] => []
  | (condition, body) :: rest =>
      form [condition.display, form ("block" :: displayAll body)] :: displayBranches rest

end

end OffsideScript
