import OffsideScript.Text.LineEnds
import OffsideScript.Token.Margin

namespace OffsideScript.Token

/-- Drops each line end that another line end or a block follows. -/
def joinNewlines : List Token → List Token
  | [] => []
  | [token] => [token]
  | token :: next :: rest =>
      if token.kind = .newline ∧ (next.kind = .newline ∨ next.kind = .indent) then
        joinNewlines (next :: rest)
      else
        token :: joinNewlines (next :: rest)

/-- A line end is kept only where it ends a statement. -/
def layout (tokens : List Token) : List Token :=
  joinNewlines (tokens.dropWhile (·.kind = .newline))

/-- The tokens and the faults of a text, before layout. -/
def read (source : List Char) : List Token × List LexicalError :=
  let marks := Mark.ofSource source
  (marks.filterMap Mark.token?, marks.filterMap Mark.fault?)

/-- The laid out tokens and the faults of a text with any line ends. -/
def scan (source : String) : List Token × List LexicalError :=
  let (tokens, faults) := read (Text.unifyLineEnds source.toList)
  (layout tokens, faults)

end OffsideScript.Token
