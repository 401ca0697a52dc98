/-
This file finds the scope that each reference to a local variable means, and the statements that stand
where they cannot run.
-/

import OffsideScript.Tree.Basic

namespace OffsideScript

/-- The ways in which a statement or a reference can stand where it cannot be. -/
inductive ScopeError.Reason where
  | selfReference
  | retOutsideFunction
  | breakOutsideLoop
  | continueOutsideLoop
  deriving DecidableEq, Repr

/-- A reason with the place of the token at which it was found. -/
structure ScopeError where
  line : Nat
  location : Location
  reason : ScopeError.Reason
  deriving DecidableEq, Repr

def ScopeError.at (token : Token) (reason : ScopeError.Reason) : ScopeError :=
  ⟨token.line, token.location, reason⟩

def ScopeError.Reason.detail : ScopeError.Reason → String
  | selfReference => "can't read local variable in its own initializer"
  | retOutsideFunction => "can't have a ret statement outside of a function"
  | breakOutsideLoop => "can't use 'break' outside of a loop"
  | continueOutsideLoop => "can't use 'continue' outside of a loop"

def ScopeError.message (error : ScopeError) : String :=
  positioned error.line (some error.location) error.reason.detail

/-- The names of a scope, latest first, with whether their declaration is complete. -/
abbrev Scope := List (String × Bool)

/-- The scopes around a place in a program, innermost first. The last one is the global scope. -/
abbrev Scopes := List Scope

namespace Scopes

/-- Adds a name to the innermost scope. -/
def bind (name : String) (complete : Bool) : Scopes → Scopes
  | [] => [[(name, complete)]]
  | scope :: outer => ((name, complete) :: scope) :: outer

/-- Whether the innermost scope is still declaring a name. -/
def isDeclaring (name : String) : Scopes → Bool
  | [] => false
  | scope :: _ => scope.lookup name == some false

/-- The number of scopes between a reference and the innermost scope with its name. The global scope
is not counted. -/
def distance? (name : String) : Scopes → Option Nat
  | [] => none
  | [_] => none
  | scope :: outer =>
      if (scope.lookup name).isSome then some 0
      else (distance? name outer).map (· + 1)

end Scopes

/-- What encloses a statement inside the current function. -/
structure Context where
  inFunction : Bool
  inLoop : Bool
  deriving DecidableEq, Repr

/-- What the analysis of scopes finds: the distance of a reference, or a fault. -/
inductive Finding where
  | distance (node : NodeId) (hops : Nat)
  | fault (error : ScopeError)
  deriving DecidableEq, Repr

def Finding.distance? : Finding → Option (NodeId × Nat)
  | .distance node hops => some (node, hops)
  | .fault _ => none

def Finding.fault? : Finding → Option ScopeError
  | .distance _ _ => none
  | .fault error => some error

def Finding.faultIf (condition : Bool) (token : Token) (reason : ScopeError.Reason) :
    List Finding :=
  if condition then [.fault (.at token reason)] else []

/-- A reference to a global variable, or to none, has no distance. -/
def Finding.ofReference (scopes : Scopes) (node : NodeId) (name : Token) : List Finding :=
  match scopes.distance? name.lexeme with
  | some hops => [.distance node hops]
  | none => []

mutual

/-- What is found in an expression, in the order of its evaluation. -/
def Expression.findings (scopes : Scopes) : Expression → List Finding
  | .constant _ => []
  | .group inner => inner.findings scopes
  | .unary _ _ operand => operand.findings scopes
  | .binary _ _ left right => left.findings scopes ++ right.findings scopes
  | .logical _ _ left right => left.findings scopes ++ right.findings scopes
  | .conditional condition whenTrue whenFalse =>
      condition.findings scopes ++ whenTrue.findings scopes ++ whenFalse.findings scopes
  | .variable node name =>
      Finding.faultIf (scopes.isDeclaring name.lexeme) name .selfReference ++
        Finding.ofReference scopes node name
  | .assign node name value => value.findings scopes ++ Finding.ofReference scopes node name
  | .array elements => findingsAll scopes elements
  | .map entries => findingsEntries scopes entries
  | .call callee _ arguments => callee.findings scopes ++ findingsAll scopes arguments
  | .index object _ position => object.findings scopes ++ position.findings scopes
  | .setIndex object _ position value =>
      object.findings scopes ++ position.findings scopes ++ value.findings scopes

def Expression.findingsAll (scopes : Scopes) : List Expression → List Finding
  | [] => []
  | expression :: rest => expression.findings scopes ++ findingsAll scopes rest

def Expression.findingsEntries (scopes : Scopes) : List (Expression × Expression) → List Finding
  | [] => []
  | (key, value) :: rest =>
      key.findings scopes ++ value.findings scopes ++ findingsEntries scopes rest

end

/-- A declaration adds its name to the scope in which it stands. -/
def Statement.extend (scopes : Scopes) : Statement → Scopes
  | .declare name _ => scopes.bind name.lexeme true
  | .function name _ _ => scopes.bind name.lexeme true
  | _ => scopes

/-- The scope of a function before its first statement. -/
def Scopes.ofParameters (parameters : List Token) : Scope :=
  parameters.foldl (fun scope parameter => (parameter.lexeme, true) :: scope) []

mutual

/-- A function sees itself. Loops around a function do not enclose its body. -/
def Statement.findings (context : Context) (scopes : Scopes) : Statement → List Finding
  | .print _ value => value.findings scopes
  | .evaluate value => value.findings scopes
  | .declare _ none => []
  | .declare name (some initial) => initial.findings (scopes.bind name.lexeme false)
  | .branch branches => findingsBranches context scopes branches
  | .loop condition body =>
      condition.findings scopes ++ findingsAll { context with inLoop := true } ([] :: scopes) body
  | .function name parameters body =>
      findingsAll ⟨true, false⟩ (Scopes.ofParameters parameters :: scopes.bind name.lexeme true)
        body
  | .ret keyword none => Finding.faultIf (!context.inFunction) keyword .retOutsideFunction
  | .ret keyword (some value) =>
      Finding.faultIf (!context.inFunction) keyword .retOutsideFunction ++ value.findings scopes
  | .breakLoop keyword => Finding.faultIf (!context.inLoop) keyword .breakOutsideLoop
  | .continueLoop keyword => Finding.faultIf (!context.inLoop) keyword .continueOutsideLoop

def Statement.findingsAll (context : Context) (scopes : Scopes) :
    List Statement → List Finding
  | [] => []
  | statement :: rest =>
      statement.findings context scopes ++ findingsAll context (statement.extend scopes) rest

def Statement.findingsBranches (context : Context) (scopes : Scopes) :
    List (Expression × List Statement) → List Finding
  | [] => []
  | (condition, body) :: rest =>
      condition.findings scopes ++ findingsAll context ([] :: scopes) body ++
        findingsBranches context scopes rest

end

/-- What is found in a program, whose outermost scope is global. -/
def Program.findings (program : Program) : List Finding :=
  Statement.findingsAll ⟨false, false⟩ [[]] program

end OffsideScript
