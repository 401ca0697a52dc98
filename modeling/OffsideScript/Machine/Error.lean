import OffsideScript.Host.Builtin

namespace OffsideScript

/-- The ways in which a running program can fail. -/
inductive RuntimeError.Reason where
  | operandsNotNumbers
  | operandsNotIntegers
  | operandNotNumber
  | operandsNotJoinable
  | undefinedVariable (name : String)
  | notCallable (shown : String)
  | arity (expected found : Nat)
  | notIndexable (shown : String)
  | invalidIndex (shown : String)
  | indexOutOfBounds (shown : String)
  | stackOverflow
  | retOutsideFunction
  | outsideLoop (keyword : String)
  | output (detail : String)
  | builtin (error : BuiltinError)
  deriving DecidableEq, Repr

/-- A reason with the place of the token at which it arose. -/
structure RuntimeError where
  line : Nat
  location : Location
  reason : RuntimeError.Reason
  deriving DecidableEq, Repr

def RuntimeError.at (token : Token) (reason : RuntimeError.Reason) : RuntimeError :=
  ⟨token.line, token.location, reason⟩

/-- What is said about a reason. -/
def RuntimeError.Reason.detail : RuntimeError.Reason → String
  | operandsNotNumbers => "operands must be numbers"
  | operandsNotIntegers => "operands must be integers"
  | operandNotNumber => "operand must be a number"
  | operandsNotJoinable => "operands must be both strings or both arrays"
  | undefinedVariable name => "undefined variable '" ++ name ++ "'"
  | notCallable shown => shown ++ " is not a function"
  | arity expected found =>
      "expected " ++ toString expected ++ " arguments but got " ++ toString found
  | notIndexable shown => shown ++ " is not indexable"
  | invalidIndex shown => "cannot use " ++ shown ++ " as an array index"
  | indexOutOfBounds shown => "index " ++ shown ++ " out of bound"
  | stackOverflow => "stack overflow"
  | retOutsideFunction => "can't have a ret statement outside of a function"
  | outsideLoop keyword => "can't use '" ++ keyword ++ "' outside of a loop"
  | output detail => "failed to write output: " ++ detail
  | builtin error => error.detail

def RuntimeError.message (error : RuntimeError) : String :=
  positioned error.line (some error.location) error.reason.detail

end OffsideScript
