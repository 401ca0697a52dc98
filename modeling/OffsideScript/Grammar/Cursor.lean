import OffsideScript.Grammar.Error
import OffsideScript.Tree.Basic

namespace OffsideScript

/-- The tokens before the end of the file that are still to be read, and what was found so far.
Errors are kept with the latest first. -/
structure Cursor where
  rest : List Token
  finish : Token
  nextNode : NodeId
  errors : List GrammarError

namespace Cursor

/-- A list without an end of file ends on the line of its last token. -/
def ofTokens (tokens : List Token) : Cursor where
  rest := tokens.takeWhile (·.kind ≠ .endOfFile)
  finish := match tokens.find? (·.kind = .endOfFile) with
    | some token => token
    | none => Token.structural .endOfFile ((tokens.getLast?.map (·.line)).getD 1)
  nextNode := 0
  errors := []

/-- The token that is read next, which is the last one when all others are read. -/
def current (cursor : Cursor) : Token :=
  cursor.rest.headD cursor.finish

/-- The end of the file is never passed. -/
def advance (cursor : Cursor) : Cursor :=
  { cursor with rest := cursor.rest.tail }

/-- The cursor with one more error. -/
def report (cursor : Cursor) (error : GrammarError) : Cursor :=
  { cursor with errors := error :: cursor.errors }

end Cursor

/-- Reading stops at a mistake, which the statement around it reports, or for lack of fuel. -/
inductive Reader.Failure where
  | mistake (error : GrammarError)
  | outOfFuel

/-- Actions that read tokens and may fail at a mistake. -/
abbrev Reader := EStateM Reader.Failure Cursor

namespace Reader

def current : Reader Token := do
  return (← get).current

def advance : Reader Token := do
  let cursor ← get
  set cursor.advance
  return cursor.current

/-- Whether the current token is of a kind. -/
def check (kind : Token.Kind) : Reader Bool := do
  return (← current).kind == kind

/-- Passes the current token if it has the given kind. -/
def accept (kind : Token.Kind) : Reader Bool := do
  if ← check kind then
    let _ ← advance
    return true
  else
    return false

/-- Fails at the current token. -/
def fail {α : Type} (reason : GrammarError.Reason) : Reader α := do
  throw (.mistake (.at (← current) reason))

/-- Takes a token of a kind, or fails. -/
def expect (kind : Token.Kind) (reason : GrammarError.Reason) : Reader Token := do
  if ← check kind then advance else fail reason

def report (error : GrammarError) : Reader Unit :=
  modify (·.report error)

/-- Gives the next number to a reference. -/
def freshNode : Reader NodeId := do
  let cursor ← get
  set { cursor with nextNode := cursor.nextNode + 1 }
  return cursor.nextNode

end Reader

end OffsideScript
