/-
This file checks a source text and prepares it to run.
-/

import OffsideScript.Grammar.Statement
import OffsideScript.Scope.Distances
import OffsideScript.Token.Layout

namespace OffsideScript

/-- A mistake in a source text, by the stage that found it. -/
inductive Diagnostic where
  | lexical (error : LexicalError)
  | grammar (error : GrammarError)
  | scope (error : ScopeError)
  deriving DecidableEq, Repr

namespace Diagnostic

def line : Diagnostic → Nat
  | lexical error => error.line
  | grammar error => error.line
  | scope error => error.line

def message : Diagnostic → String
  | lexical error => error.message
  | grammar error => error.message
  | scope error => error.message

/-- Diagnostics stand on lines of their own. -/
def report (diagnostics : List Diagnostic) : String :=
  String.intercalate "\n" (diagnostics.map message)

end Diagnostic

/-- A program that may run, with the distances of its references. -/
structure Compiled where
  program : Program
  distances : Distances

/-- Reads a source text up to its tree. -/
def parse (source : String) : Except (List Diagnostic) Program :=
  match Token.scan source with
  | (tokens, []) =>
      match Program.ofTokens tokens with
      | (program, []) => .ok program
      | (_, errors) => .error (errors.map .grammar)
  | (_, faults) => .error (faults.map .lexical)

/-- The first stage that finds something wrong ends the compilation. -/
def compile (source : String) : Except (List Diagnostic) Compiled := do
  let program ← parse source
  match program.resolve with
  | (distances, []) => .ok ⟨program, distances⟩
  | (_, errors) => .error (errors.map .scope)

end OffsideScript
