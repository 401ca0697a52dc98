import OffsideScript.Proofs.Token.Cutting

namespace OffsideScript

namespace Token

/-- The text of tokens that each have blanks in front of them. -/
def behindBlanks (row : List (List Char × Token)) : List Char :=
  row.flatMap fun entry => entry.1 ++ entry.2.lexeme.toList

/-- The text of tokens in a row. All but the first one have blanks in front of them. -/
def joined (first : Token) (row : List (List Char × Token)) : List Char :=
  first.lexeme.toList ++ behindBlanks row

/-- Tokens in a row, from a line on, and then the end of the last line and of the file. -/
def onLines (line : Nat) : List Token → List Token
  | [] => [structural .newline line, structural .endOfFile line]
  | token :: rest => token.onLine line :: onLines (line + token.lexeme.toList.count '\n') rest

/-- Tokens of the language with blanks in front of each. -/
structure IsRow (row : List (List Char × Token)) : Prop where
  spelled : ∀ entry ∈ row, entry.2.Spelled
  written : ∀ entry ∈ row, entry.2.kind.IsWritten
  blank : ∀ entry ∈ row, Text.IsBlank entry.1
  apart : ∀ entry ∈ row, entry.1 ≠ []

namespace IsRow

variable {row : List (List Char × Token)} {entry : List Char × Token}

/-- The tokens behind the first one are in a row. -/
theorem tail (isRow : IsRow (entry :: row)) : IsRow row where
  spelled other member := isRow.spelled other (List.mem_cons_of_mem _ member)
  written other member := isRow.written other (List.mem_cons_of_mem _ member)
  blank other member := isRow.blank other (List.mem_cons_of_mem _ member)
  apart other member := isRow.apart other (List.mem_cons_of_mem _ member)

/-- A blank separates the tokens in a row from what stands before them. -/
theorem separates (isRow : IsRow row) : Piece.Separates (behindBlanks row) := by
  cases row with
  | nil => simp [Piece.Separates, behindBlanks]
  | cons entry row =>
      have blank := isRow.blank entry List.mem_cons_self
      obtain ⟨character, blanks, shape⟩ :=
        List.exists_cons_of_ne_nil (isRow.apart entry List.mem_cons_self)
      rw [shape] at blank
      intro found known
      simp only [behindBlanks, List.flatMap_cons, shape, List.cons_append, List.head?_cons,
        Option.mem_some_iff] at known
      subst known
      rcases blank character List.mem_cons_self with space | tab
      · exact .inl space
      · exact .inr (.inl tab)

/-- No line ends with a carriage return in a row. -/
theorem no_return (isRow : IsRow row) : '\r' ∉ behindBlanks row := by
  simp only [behindBlanks, List.mem_flatMap, List.mem_append, not_exists, not_and, not_or]
  intro entry member
  refine ⟨fun inside => ?_, (isRow.spelled entry member).no_return⟩
  exact absurd (isRow.blank entry member _ inside) (by decide)

end IsRow

/-- A line starts in a token for each line end in its lexeme. -/
theorem gives_lineEnds {token : Token} {piece : Piece} (gives : piece.Gives token) :
    piece.lineEnds = token.lexeme.toList.count '\n' := by
  have cut := gives.cut [] (by simp [Piece.Separates])
  have text := Piece.cut_text (token.lexeme.toList ++ [])
  rw [cut] at text
  have covers : piece.text = token.lexeme.toList := by simpa [Piece.cut] using text
  rw [Piece.lineEnds, covers]

/-- The lexeme of a token that is separated from what follows is read as the token. -/
theorem read_lexeme {token : Token} {text : List Char} (spelled : token.Spelled)
    (written : token.kind.IsWritten) (separates : Piece.Separates text) (margin : Margin) (line : Nat) :
    margin.read line none (Piece.cut 0 (token.lexeme.toList ++ text)) =
      .token (token.onLine line) ::
        margin.read (line + token.lexeme.toList.count '\n') none (Piece.cut 0 text) := by
  obtain ⟨piece, gives⟩ := spelled.gives written
  rw [gives.cut text separates, Margin.read_solid gives.solid, gives.marks, gives_lineEnds gives]
  rfl

/-- Tokens in a row are read one after the other. -/
theorem read_joined {first : Token} {row : List (List Char × Token)} (spelled : first.Spelled)
    (written : first.kind.IsWritten) (isRow : IsRow row) (line : Nat) :
    Margin.read [] line none (Piece.cut 0 (joined first row)) =
      (onLines line (first :: row.map Prod.snd)).map .token := by
  induction row generalizing first line with
  | nil =>
      rw [joined, read_lexeme spelled written isRow.separates]
      rfl
  | cons entry row ih =>
      have blank := isRow.blank entry List.mem_cons_self
      have later := ih (isRow.spelled entry List.mem_cons_self)
        (isRow.written entry List.mem_cons_self) isRow.tail
      have rest : behindBlanks (entry :: row) = entry.1 ++ joined entry.2 row := by
        simp [behindBlanks, joined]
      rw [joined, read_lexeme spelled written isRow.separates, rest, Margin.read_blanks blank,
        Option.map_none, later]
      rfl

/-- There are no two line ends in a row to join. -/
theorem joinNewlines_onLines {tokens : List Token}
    (written : ∀ token ∈ tokens, token.kind.IsWritten) (line : Nat) :
    joinNewlines (onLines line tokens) = onLines line tokens := by
  induction tokens generalizing line with
  | nil => simp [onLines, joinNewlines, structural_kind]
  | cons token rest ih =>
      obtain ⟨here, others⟩ := List.forall_mem_cons.mp written
      have visible : (token.onLine line).kind ≠ .newline := here.ne (by decide)
      rw [onLines, joinNewlines_cons visible, ih others]

/-- Whatever tokens are written in a row with blanks between them, the text is scanned without faults to exactly
these tokens, an end of line and the end of the file. A token is on the line that the line ends in the tokens
before it lead to. -/
theorem scan_joined {first : Token} {row : List (List Char × Token)} (spelled : first.Spelled)
    (written : first.kind.IsWritten) (isRow : IsRow row) :
    scan (String.ofList (joined first row)) = (onLines 1 (first :: row.map Prod.snd), []) := by
  have plain : '\r' ∉ joined first row := by
    rw [joined, List.mem_append, not_or]
    exact ⟨spelled.no_return, isRow.no_return⟩
  have all : ∀ token ∈ first :: row.map Prod.snd, token.kind.IsWritten := by
    rw [List.forall_mem_cons, List.forall_mem_map]
    exact ⟨written, isRow.written⟩
  have visible : (first.onLine 1).kind ≠ .newline := written.ne (by decide)
  have laid : layout (onLines 1 (first :: row.map Prod.snd)) =
      onLines 1 (first :: row.map Prod.snd) := by
    rw [layout, onLines, List.dropWhile_cons_of_neg (by simpa using visible)]
    exact joinNewlines_onLines all 1
  unfold scan read Mark.ofSource Piece.ofSource
  rw [String.toList_ofList, Text.unifyLineEnds_eq plain, read_joined spelled written isRow]
  dsimp only
  rw [Mark.tokens_map, Mark.faults_map, laid]

/-- Tokens that a text without the blanks would not separate, and a text of two lines that looks like a comment. -/
theorem scan_joined_tight :
    let equal : Token := ⟨.equal, "=", 0, none⟩
    let longer : Token := ⟨.equalEqual, "==", 0, none⟩
    let text : Token := ⟨.text, "'#\n'", 0, some (.text "#\n")⟩
    let keyword : Token := ⟨.ifWord, "if", 0, none⟩
    let name : Token := ⟨.identifier, "if1", 0, none⟩
    let row := [([' '], longer), (['\t', ' '], text), ([' '], keyword), (['\t'], name)]
    equal.Spelled ∧ equal.kind.IsWritten ∧ IsRow row ∧
      scan "= ==\t '#\n' if\tif1" =
        ([equal.onLine 1, longer.onLine 1, text.onLine 1, keyword.onLine 2, name.onLine 2,
          structural .newline 2, structural .endOfFile 2], []) := by
  intro equal longer text keyword name row
  have spelled : equal.Spelled := ⟨rfl, rfl⟩
  have word : Piece.IsWord "if1".toList := ⟨'i', ['f', '1'], by decide, rfl, List.all_eq_true.mp rfl⟩
  have isRow : IsRow row := by
    constructor
    · simp only [row, List.forall_mem_cons]
      exact ⟨⟨rfl, rfl⟩, ⟨['#', '\n'], by simp, rfl, rfl⟩, ⟨rfl, rfl⟩, ⟨word, by decide, rfl⟩, by simp⟩
    · simp [row, longer, text, keyword, name, Kind.IsWritten]
    · simp [row, Text.IsBlank]
    · simp [row]
  have source : String.ofList (joined equal row) = "= ==\t '#\n' if\tif1" := by decide
  have scanned := scan_joined spelled (by decide) isRow
  rw [source] at scanned
  refine ⟨spelled, by decide, isRow, scanned.trans ?_⟩
  simp [onLines, row, equal, longer, text, keyword, name]

end Token

end OffsideScript
