/-
This file reads statements. A statement with a mistake is reported and left out, and reading goes on
after it.
-/

import OffsideScript.Grammar.Expression

namespace OffsideScript

namespace Token

/-- Skips a block up to the token that closes it, counting the blocks inside it. -/
def skipBlock : Nat → List Token → List Token
  | _, [] => []
  | depth, token :: rest =>
      match token.kind with
      | .indent => skipBlock (depth + 1) rest
      | .dedent => if depth ≤ 1 then rest else skipBlock (depth - 1) rest
      | _ => skipBlock depth rest

/-- Skips the rest of a broken statement: past a line end or a block, or up to the end of the block
around it or a word that starts a statement. -/
def synchronize : List Token → List Token
  | [] => []
  | token :: rest =>
      match token.kind with
      | .newline => rest
      | .indent => skipBlock 0 (token :: rest)
      | .dedent | .ifWord | .funcWord | .retWord | .letWord | .whileWord | .printWord =>
          token :: rest
      | _ => synchronize rest

end Token

/-- Goes on after a statement that started at the first cursor and failed at the second. At least
one token is passed. -/
def Cursor.recover (start failed : Cursor) (error : GrammarError) : Cursor :=
  let reported := failed.report error
  let moved := if failed.rest.length = start.rest.length then reported.advance else reported
  { moved with rest := Token.synchronize moved.rest }

namespace Reader

/-- Reads the end of a line. -/
def endLine (context : LineContext) : Reader Unit := do
  let _ ← expect .newline (.lineEnd context)

/-- Reads one name or more with commas between them. -/
def parameters : Nat → Reader (List Token)
  | 0 => throw .outOfFuel
  | fuel + 1 => do
      let parameter ← expect .identifier .parameterName
      if ← accept .comma then
        return parameter :: (← parameters fuel)
      else
        return [parameter]

mutual

/-- Reads one statement. -/
def statement : Nat → Reader Statement
  | 0 => throw .outOfFuel
  | fuel + 1 => do
      match (← current).kind with
      | .printWord =>
          let keyword ← advance
          let value ← expression fuel .sequence
          endLine .printStatement
          return .print keyword value
      | .letWord =>
          let _ ← advance
          let name ← expect .identifier .variableName
          let initial ← if ← accept .equal then some <$> expression fuel .sequence else pure none
          endLine .letStatement
          return .declare name initial
      | .ifWord =>
          let _ ← advance
          let condition ← expression fuel .sequence
          let body ← block fuel .ifWord
          return .branch ((condition, body) :: (← branches fuel))
      | .whileWord =>
          let _ ← advance
          let condition ← expression fuel .sequence
          return .loop condition (← block fuel .whileWord)
      | .funcWord =>
          let _ ← advance
          let name ← expect .identifier .functionName
          let _ ← expect .leftParen .parametersStart
          let names ← if ← check .rightParen then pure [] else parameters fuel
          let _ ← expect .rightParen .parametersEnd
          return .function name names (← block fuel .functionDeclaration)
      | .retWord =>
          let keyword ← advance
          let value ← if ← check .newline then pure none else some <$> expression fuel .sequence
          endLine .retStatement
          return .ret keyword value
      | .breakWord =>
          let keyword ← advance
          endLine .breakWord
          return .breakLoop keyword
      | .continueWord =>
          let keyword ← advance
          endLine .continueWord
          return .continueLoop keyword
      | _ =>
          let value ← expression fuel .sequence
          endLine .expressionStatement
          return .evaluate value

/-- Reads the further branches of a chain. -/
def branches : Nat → Reader (List (Expression × List Statement))
  | 0 => throw .outOfFuel
  | fuel + 1 => do
      if ← accept .elifWord then
        let condition ← expression fuel .sequence
        let body ← block fuel .elifWord
        return (condition, body) :: (← branches fuel)
      else if ← accept .elseWord then
        return [(.constant (.boolean true), ← block fuel .elseWord)]
      else
        return []

/-- Reads a block, which a colon may announce. -/
def block : Nat → BlockContext → Reader (List Statement)
  | 0, _ => throw .outOfFuel
  | fuel + 1, context => do
      let _ ← accept .colon
      let _ ← expect .indent (.block context)
      let body ← statements fuel true
      let _ ← expect .dedent .blockEnd
      return body

/-- Reads statements up to the end of the file and, inside a block, up to its end. -/
def statements : Nat → Bool → Reader (List Statement)
  | 0, _ => throw .outOfFuel
  | fuel + 1, nested => do
      let cursor ← get
      if cursor.rest.isEmpty || (nested && cursor.current.kind == .dedent) then
        return []
      else
        match ← attempt fuel with
        | some first => return first :: (← statements fuel nested)
        | none => statements fuel nested

/-- Reads a statement, or reports its mistake and skips it. -/
def attempt : Nat → Reader (Option Statement)
  | 0 => throw .outOfFuel
  | fuel + 1 => fun start =>
      match statement fuel start with
      | .ok read cursor => .ok (some read) cursor
      | .error (.mistake error) cursor => .ok none (start.recover cursor error)
      | .error .outOfFuel cursor => .error .outOfFuel cursor

end

/-- More calls than any token list can nest. -/
def enoughFuel (tokens : List Token) : Nat :=
  20 * (tokens.length + 2)

end Reader

/-- The program that the tokens form, with the errors in the order of their discovery. -/
def Program.ofTokens (tokens : List Token) : Program × List GrammarError :=
  match Reader.statements (Reader.enoughFuel tokens) false (.ofTokens tokens) with
  | .ok program cursor => (program, cursor.errors.reverse)
  | .error _ cursor => ([], cursor.errors.reverse)

end OffsideScript
