/-
This file runs programs. Every call and every turn of a loop takes fuel.
-/

import OffsideScript.Machine.Operators

namespace OffsideScript.Exec

mutual

/-- Evaluates an expression, from left to right. -/
def evaluate : Nat → Expression → Exec Value
  | 0, _ => throw .outOfFuel
  | fuel + 1, expression =>
      match expression with
      | .constant value => return value.toValue
      | .group inner => evaluate fuel inner
      | .unary operator token operand => do
          let operand ← evaluate fuel operand
          unary operator token operand
      | .binary operator token left right => do
          let left ← evaluate fuel left
          let right ← evaluate fuel right
          binary operator token left right
      | .logical operator _ left right => do
          let left ← evaluate fuel left
          logical fuel operator left.isTrue right
      | .conditional condition whenTrue whenFalse => do
          let condition ← evaluate fuel condition
          if condition.isTrue then evaluate fuel whenTrue else evaluate fuel whenFalse
      | .variable node name => read node name
      | .assign node name value => do
          let value ← evaluate fuel value
          assign node name value
          return value
      | .array elements => do
          let elements ← evaluateAll fuel elements
          newArray elements.toArray
      | .map entries => do
          let map ← evaluateEntries fuel .empty entries
          newMap map
      | .call callee closing arguments => do
          let callee ← evaluate fuel callee
          let arguments ← evaluateAll fuel arguments
          call fuel closing callee arguments
      | .index object bracket position => do
          let object ← evaluate fuel object
          let container ← expectContainer bracket object
          let position ← evaluate fuel position
          element bracket container position
      | .setIndex object bracket position value => do
          let object ← evaluate fuel object
          let container ← expectContainer bracket object
          let position ← evaluate fuel position
          checkElement bracket container position
          let value ← evaluate fuel value
          setElement bracket container position value

/-- The right operand is evaluated only if the left one does not decide. -/
def logical : Nat → LogicalOperator → Bool → Expression → Exec Value
  | 0, _, _, _ => throw .outOfFuel
  | fuel + 1, operator, left, right =>
      match operator, left with
      | .or, true => return .boolean true
      | .and, false => return .boolean false
      | .or, false => evaluate fuel right
      | .and, true => evaluate fuel right
      | .xor, left => do
          let right ← evaluate fuel right
          return .boolean (left != right.isTrue)

def evaluateAll : Nat → List Expression → Exec (List Value)
  | 0, _ => throw .outOfFuel
  | _ + 1, [] => return []
  | fuel + 1, expression :: rest => do
      let value ← evaluate fuel expression
      let values ← evaluateAll fuel rest
      return value :: values

def evaluateEntries :
    Nat → OrderedMap Value Value → List (Expression × Expression) →
      Exec (OrderedMap Value Value)
  | 0, _, _ => throw .outOfFuel
  | _ + 1, map, [] => return map
  | fuel + 1, map, (key, value) :: rest => do
      let key ← evaluate fuel key
      let value ← evaluate fuel value
      evaluateEntries fuel (map.insert key value) rest

/-- Calls a value with some arguments. -/
def call : Nat → Token → Value → List Value → Exec Value
  | 0, _, _, _ => throw .outOfFuel
  | fuel + 1, closing, callee, arguments =>
      match callee with
      | .builtin ref => callBuiltin closing ref arguments
      | .function ref => do
          match (← get).heap.closure? ref with
          | none => return .nihl
          | some closure =>
              checkArity closing closure.parameters.length arguments.length
              if Machine.maxCallDepth ≤ (← get).callDepth then
                fail closing .stackOverflow
              else
                let environment ←
                  newEnvironment (closure.bindings arguments) closure.environment
                match ← inCall (within environment (executeAll fuel closure.body)) with
                | .returned value => return value
                | _ => return .nihl
      | callee => do fail closing (.notCallable (← render callee))

/-- Executes one statement. -/
def execute : Nat → Statement → Exec Flow
  | 0, _ => throw .outOfFuel
  | fuel + 1, statement =>
      match statement with
      | .print keyword value => do
          let value ← evaluate fuel value
          print keyword value
          return .normal
      | .evaluate value => do
          let _ ← evaluate fuel value
          return .normal
      | .declare name none => do
          define name.lexeme .nihl
          return .normal
      | .declare name (some initial) => do
          let value ← evaluate fuel initial
          define name.lexeme value
          return .normal
      | .branch branches => executeBranches fuel branches
      | .loop condition body => inLoop (repeatBody fuel condition body)
      | .function name parameters body => do
          let value ← newFunction name parameters body
          define name.lexeme value
          return .normal
      | .ret keyword value => do
          if (← get).callDepth = 0 then
            fail keyword .retOutsideFunction
          else
            match value with
            | none => return .returned .nihl
            | some value => do
                let value ← evaluate fuel value
                return .returned value
      | .breakLoop keyword => do
          if (← get).loopDepth = 0 then fail keyword (.outsideLoop "break") else return .broke
      | .continueLoop keyword => do
          if (← get).loopDepth = 0 then fail keyword (.outsideLoop "continue") else return .continued

/-- Executes statements up to the first that does not end normally. -/
def executeAll : Nat → List Statement → Exec Flow
  | 0, _ => throw .outOfFuel
  | _ + 1, [] => return .normal
  | fuel + 1, statement :: rest => do
      match ← execute fuel statement with
      | .normal => executeAll fuel rest
      | flow => return flow

/-- Runs statements in an environment of their own. -/
def executeBody : Nat → List Statement → Exec Flow
  | 0, _ => throw .outOfFuel
  | fuel + 1, body => do
      let environment ← newEnvironment [] (← get).environment
      within environment (executeAll fuel body)

/-- Runs the first branch whose condition holds. -/
def executeBranches : Nat → List (Expression × List Statement) → Exec Flow
  | 0, _ => throw .outOfFuel
  | _ + 1, [] => return .normal
  | fuel + 1, (condition, body) :: rest => do
      let condition ← evaluate fuel condition
      if condition.isTrue then executeBody fuel body else executeBranches fuel rest

/-- Executes the body of a loop as long as its condition holds. -/
def repeatBody : Nat → Expression → List Statement → Exec Flow
  | 0, _, _ => throw .outOfFuel
  | fuel + 1, condition, body => do
      let holds ← evaluate fuel condition
      if holds.isTrue then
        match ← executeBody fuel body with
        | .normal => repeatBody fuel condition body
        | .continued => repeatBody fuel condition body
        | .broke => return .normal
        | .returned value => return .returned value
      else
        return .normal

end

/-- Runs the statements of a program in order. -/
def executeProgram (fuel : Nat) : Program → Exec Unit
  | [] => return ()
  | statement :: rest => do
      let _ ← execute fuel statement
      executeProgram fuel rest

end OffsideScript.Exec
