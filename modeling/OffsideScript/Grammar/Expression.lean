/-
This file reads expressions. An expression is read at a level, and each level binds more tightly than
the one before it.
-/

import OffsideScript.Grammar.Cursor

namespace OffsideScript

/-- The levels of expressions from the loosest to the tightest. -/
inductive Level where
  | sequence
  | assignment
  | conditional
  | disjunction
  | conjunction
  | equality
  | comparison
  | sum
  | product
  | power
  | sign
  | application
  | atom
  deriving DecidableEq, Repr

/-- The next tighter level. -/
def Level.tighter : Level → Level
  | sequence => assignment
  | assignment => conditional
  | conditional => disjunction
  | disjunction => conjunction
  | conjunction => equality
  | equality => comparison
  | comparison => sum
  | sum => product
  | product => power
  | power => sign
  | sign => application
  | application => atom
  | atom => atom

/-- An operator between two operands that groups to the left. -/
inductive Joiner where
  | binary (operator : BinaryOperator)
  | logical (operator : LogicalOperator)
  deriving DecidableEq, Repr

/-- The expression of an operator between two operands. -/
def Joiner.join (joiner : Joiner) (token : Token) (left right : Expression) : Expression :=
  match joiner with
  | binary operator => .binary operator token left right
  | logical operator => .logical operator token left right

/-- The operators of a level. -/
def Level.joiner? : Level → Token.Kind → Option Joiner
  | sequence, .comma => some (.binary .sequence)
  | disjunction, .orWord => some (.logical .or)
  | disjunction, .xorWord => some (.logical .xor)
  | conjunction, .andWord => some (.logical .and)
  | equality, .equalEqual => some (.binary .equal)
  | equality, .bangEqual => some (.binary .notEqual)
  | comparison, .less => some (.binary .less)
  | comparison, .lessEqual => some (.binary .lessEqual)
  | comparison, .greater => some (.binary .greater)
  | comparison, .greaterEqual => some (.binary .greaterEqual)
  | sum, .plus => some (.binary .add)
  | sum, .minus => some (.binary .subtract)
  | sum, .plusPlus => some (.binary .concat)
  | product, .star => some (.binary .multiply)
  | product, .slash => some (.binary .divide)
  | product, .percent => some (.binary .remainder)
  | _, _ => none

def UnaryOperator.ofKind? : Token.Kind → Option UnaryOperator
  | .minus => some negate
  | .bang => some not
  | _ => none

def Constant.ofKeyword? : Token.Kind → Option Constant
  | .trueWord => some (boolean true)
  | .falseWord => some (boolean false)
  | .nihlWord => some nihl
  | _ => none

def Constant.ofLiteral : Literal → Constant
  | .number value => number value
  | .text value => text value

namespace Reader

/-- An assignment keeps the node of the variable that it assigns. Any other target is reported and
then stands for the whole expression. -/
def assign (target : Expression) (equals : Token) (value : Expression) : Reader Expression :=
  match target with
  | .variable node name => return .assign node name value
  | .index object bracket position => return .setIndex object bracket position value
  | target => do
      report (.at equals .assignmentTarget)
      return target

/-- Reads a token as a constant. -/
def literal : Reader Expression := do
  let token ← advance
  match token.literal with
  | some value => return .constant (.ofLiteral value)
  | none => throw (.mistake (.at token .malformedLiteral))

/-- Reads a name as a variable with a number of its own. -/
def name : Reader Expression := do
  let token ← advance
  return .variable (← freshNode) token

mutual

/-- Reads an expression of a level. -/
def expression : Nat → Level → Reader Expression
  | 0, _ => throw .outOfFuel
  | fuel + 1, .assignment => do
      let target ← expression fuel .conditional
      if ← check .equal then
        let equals ← advance
        let value ← expression fuel .assignment
        assign target equals value
      else
        return target
  | fuel + 1, .conditional => do
      let condition ← expression fuel .disjunction
      if ← accept .question then
        let whenTrue ← expression fuel .conditional
        let _ ← expect .colon .conditionalColon
        let whenFalse ← expression fuel .conditional
        return .conditional condition whenTrue whenFalse
      else
        return condition
  | fuel + 1, .power => do
      let base ← expression fuel .sign
      if ← check .caret then
        let token ← advance
        let exponent ← expression fuel .power
        return .binary .power token base exponent
      else
        return base
  | fuel + 1, .sign => do
      match UnaryOperator.ofKind? (← current).kind with
      | some operator =>
          let token ← advance
          let operand ← expression fuel .sign
          return .unary operator token operand
      | none => expression fuel .application
  | fuel + 1, .application => do
      let callee ← expression fuel .atom
      suffixes fuel callee
  | fuel + 1, .atom => atom fuel
  | fuel + 1, level => do
      let left ← expression fuel level.tighter
      joined fuel level left

/-- Reads further operands of a level whose operators group to the left. -/
def joined : Nat → Level → Expression → Reader Expression
  | 0, _, _ => throw .outOfFuel
  | fuel + 1, level, left => do
      match level.joiner? (← current).kind with
      | some joiner =>
          let token ← advance
          let right ← expression fuel level.tighter
          joined fuel level (joiner.join token left right)
      | none => return left

/-- Reads calls and indices. -/
def suffixes : Nat → Expression → Reader Expression
  | 0, _ => throw .outOfFuel
  | fuel + 1, left => do
      match (← current).kind with
      | .leftParen =>
          let _ ← advance
          let arguments ← list fuel .rightParen
          let closing ← expect .rightParen .argumentsEnd
          suffixes fuel (.call left closing arguments)
      | .leftBracket =>
          let bracket ← advance
          let position ← expression fuel .sequence
          let _ ← expect .rightBracket .indexEnd
          suffixes fuel (.index left bracket position)
      | _ => return left

/-- Reads an expression that no operator divides. -/
def atom : Nat → Reader Expression
  | 0 => throw .outOfFuel
  | fuel + 1 => do
      let kind := (← current).kind
      match kind with
      | .number | .text => literal
      | .identifier => name
      | .leftParen =>
          let _ ← advance
          let inner ← expression fuel .sequence
          let _ ← expect .rightParen .groupEnd
          return .group inner
      | .leftBracket =>
          let _ ← advance
          let elements ← list fuel .rightBracket
          let _ ← expect .rightBracket .arrayEnd
          return .array elements
      | .leftBrace =>
          let _ ← advance
          let entries ← if ← check .rightBrace then pure [] else pairs fuel
          let _ ← expect .rightBrace .mapEnd
          return .map entries
      | _ =>
          match Constant.ofKeyword? kind with
          | some value =>
              let _ ← advance
              return .constant value
          | none => fail .unexpectedToken

/-- Reads expressions between commas, none of them if the list closes at once. -/
def list : Nat → Token.Kind → Reader (List Expression)
  | 0, _ => throw .outOfFuel
  | fuel + 1, closing => do
      if ← check closing then return [] else items fuel

/-- Reads one expression or more with commas between them. -/
def items : Nat → Reader (List Expression)
  | 0 => throw .outOfFuel
  | fuel + 1 => do
      let item ← expression fuel .assignment
      if ← accept .comma then
        return item :: (← items fuel)
      else
        return [item]

/-- Reads one pair or more with commas between them. -/
def pairs : Nat → Reader (List (Expression × Expression))
  | 0 => throw .outOfFuel
  | fuel + 1 => do
      let key ← expression fuel .assignment
      let _ ← expect .fatArrow .mapArrow
      let value ← expression fuel .assignment
      if ← accept .comma then
        return (key, value) :: (← pairs fuel)
      else
        return [(key, value)]

end

end Reader

end OffsideScript
