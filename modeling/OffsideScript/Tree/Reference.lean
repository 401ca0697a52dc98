import OffsideScript.Tree.Basic

namespace OffsideScript

/-- A reference reads a variable or assigns it. -/
structure Reference where
  node : NodeId
  assigns : Bool
  name : Token

mutual

/-- The references of an expression in the order of its evaluation. -/
def Expression.references : Expression → List Reference
  | .constant _ => []
  | .group inner => inner.references
  | .unary _ _ operand => operand.references
  | .binary _ _ left right => left.references ++ right.references
  | .logical _ _ left right => left.references ++ right.references
  | .conditional condition whenTrue whenFalse =>
      condition.references ++ whenTrue.references ++ whenFalse.references
  | .variable node name => [⟨node, false, name⟩]
  | .assign node name value => value.references ++ [⟨node, true, name⟩]
  | .array elements => referencesAll elements
  | .map entries => referencesEntries entries
  | .call callee _ arguments => callee.references ++ referencesAll arguments
  | .index object _ position => object.references ++ position.references
  | .setIndex object _ position value =>
      object.references ++ position.references ++ value.references

def Expression.referencesAll : List Expression → List Reference
  | [] => []
  | expression :: rest => expression.references ++ referencesAll rest

def Expression.referencesEntries : List (Expression × Expression) → List Reference
  | [] => []
  | (key, value) :: rest => key.references ++ value.references ++ referencesEntries rest

end

mutual

/-- The references of a statement in the order of the analysis. -/
def Statement.references : Statement → List Reference
  | .print _ value => value.references
  | .evaluate value => value.references
  | .declare _ none => []
  | .declare _ (some initial) => initial.references
  | .branch branches => referencesBranches branches
  | .loop condition body => condition.references ++ referencesAll body
  | .function _ _ body => referencesAll body
  | .ret _ none => []
  | .ret _ (some value) => value.references
  | .breakLoop _ => []
  | .continueLoop _ => []

def Statement.referencesAll : List Statement → List Reference
  | [] => []
  | statement :: rest => statement.references ++ referencesAll rest

def Statement.referencesBranches : List (Expression × List Statement) → List Reference
  | [] => []
  | (condition, body) :: rest =>
      condition.references ++ referencesAll body ++ referencesBranches rest

end

/-- The references of a program. -/
def Program.references (program : Program) : List Reference :=
  Statement.referencesAll program

end OffsideScript
