import OffsideScript.Proofs.Grammar.Places
import OffsideScript.Proofs.Token.Content
import OffsideScript.Proofs.Token.Lines

namespace OffsideScript

namespace Text

/-- A line of blanks, with or without a comment behind them. -/
def IsIdle (line : List Char) : Prop :=
  ∃ blanks comment, line = blanks ++ comment ∧ IsBlank blanks ∧
    (comment = [] ∨ ∃ body, comment = '#' :: body ∧ '\n' ∉ body)

/-- The end of a line leaves quotes open. -/
theorem zone_line (text : List Char) : zone (text ++ ['\n']) = .quote ↔ zone text = .quote := by
  unfold zone
  rw [List.foldl_append, List.foldl_cons, List.foldl_nil]
  cases text.foldl Zone.next .code <;> decide

end Text

namespace Piece

/-- What follows a piece belongs to what it belongs to alone. -/
theorem zone_piece {character : Char} {covered after : List Char}
    (text : (startingAt character (covered ++ after)).text = character :: covered)
    (more : after ≠ []) : Text.zone (character :: (covered ++ after)) = Text.zone after := by
  unfold Text.zone
  by_cases quote : character = '\''
  · subst quote
    obtain ⟨content, unquoted, ⟨closed, rest, _⟩ | ⟨unclosed, whole⟩⟩ :=
      startingAt_quote (covered ++ after)
    · rw [closed] at text
      obtain rfl : content ++ ['\''] = covered := (List.cons.inj text).2
      rw [List.append_assoc, List.foldl_cons, List.foldl_append]
      show ([_] ++ after).foldl Zone.next (content.foldl Zone.next .quote) = _
      rw [Text.foldl_quote unquoted]
      rfl
    · rw [unclosed] at text
      obtain rfl : content = covered := (List.cons.inj text).2
      exact absurd (List.append_right_eq_self.mp whole) more
  · by_cases sign : character = '#'
    · subst sign
      have short := comment_short text
      obtain ⟨next, rest, rfl⟩ := List.exists_cons_of_ne_nil more
      obtain rfl := comment_ends rfl text next rfl
      rw [List.foldl_cons, List.foldl_append]
      show ('\n' :: rest).foldl Zone.next (covered.foldl Zone.next .comment) = _
      rw [Text.foldl_comment short]
      rfl
    · have plain : (character :: covered).foldl Zone.next .code = .code := by
        by_cases blank : character ∈ ['\n', ' ', '\t']
        · have single : covered = [] := by
            simp only [List.mem_cons, List.not_mem_nil, or_false] at blank
            rcases blank with rfl | rfl | rfl <;> exact (List.cons.inj text).2.symm
          rw [single, List.foldl_cons, Zone.next, if_neg sign, if_neg quote]
          rfl
        · have other : character ∉ ['\n', ' ', '\t', '#', '\''] := by simp_all
          rw [← text]
          exact Text.foldl_plain (startingAt_plain other _).2
      rw [← List.cons_append, List.foldl_append, plain]

/-- Behind a quote that is not closed the text is quoted. -/
theorem zone_of_unclosed {text content : List Char} (member : unclosed content ∈ cut 0 text) :
    Text.zone text = .quote := by
  induction text using cut_induction with
  | empty => cases member
  | step character covered after text whole ih =>
      rw [whole] at member
      rcases List.mem_cons.mp member with here | later
      · rw [← here] at text
        obtain ⟨rfl, rfl⟩ := List.cons.inj text
        obtain ⟨inner, unquoted, ⟨closed, _⟩ | ⟨_, whole⟩⟩ := startingAt_quote (content ++ after)
        · rw [← here] at closed
          cases closed
        · rw [whole]
          exact Text.foldl_quote unquoted
      · have more : after ≠ [] := by
          rintro rfl
          cases later
        rw [zone_piece text more]
        exact ih later

/-- A text is cut at each line end outside of quotes. -/
theorem cut_outside {text : List Char} (outside : Text.zone text ≠ .quote) (more : List Char) :
    cut 0 (text ++ '\n' :: more) = cut 0 text ++ lineEnd :: cut 0 more := by
  apply cut_line
  intro content member
  exact outside ((Text.zone_line text).mp (zone_of_unclosed member))

end Piece

/-- An idle line gives nothing but its end. -/
theorem Margin.read_idle {idle : List Char} (isIdle : Text.IsIdle idle) (margin : Margin) (line : Nat)
    (column : Option Nat) (rest : List Char) :
    margin.read line column (Piece.cut 0 (idle ++ '\n' :: rest)) =
      .structural .newline line :: margin.read (line + 1) (some 0) (Piece.cut 0 rest) := by
  obtain ⟨blanks, comment, rfl, blank, rfl | ⟨body, rfl, short⟩⟩ := isIdle
  · rw [List.append_assoc, read_blanks blank]
    rfl
  · have starts : Piece.startingAt '#' (body ++ '\n' :: rest) = .comment body :=
      Piece.startingAt_comment short (by simp)
    rw [List.append_assoc, read_blanks blank, Piece.cut_of_startingAt starts rfl]
    rfl

namespace Mark

/-- What is read up to a line end outside of quotes does not depend on what follows. -/
theorem ofSource_outside {text : List Char} (outside : Text.zone text ≠ .quote) :
    ∃ (marks : List Mark) (margin : Margin),
      (∀ mark ∈ marks, mark.line ≤ text.count '\n' + 1 ∧
        (mark.IsNewline → mark.line < text.count '\n' + 1)) ∧
      ofSource text = marks ++ margin.finish (text.count '\n' + 1) ∧
      ∀ more, ofSource (text ++ '\n' :: more) =
        marks ++ structural .newline (text.count '\n' + 1) ::
          margin.read (text.count '\n' + 1 + 1) (some 0) (Piece.cut 0 more) := by
  obtain ⟨marks, margin, shifted, passes, reads⟩ := Margin.exists_passes_line text
  refine ⟨marks, margin, fun mark member => ⟨(passes.lines mark member).2, passes.ended mark member⟩,
    passes.whole, fun more => reads more (Piece.cut_outside outside more)⟩

end Mark

namespace Token

/-- Line ends behind each other count as the last one. -/
theorem joinNewlines_double {first second : Token} (ends : first.kind = .newline)
    (again : second.kind = .newline) (before rest : List Token) :
    joinNewlines (before ++ first :: second :: rest) = joinNewlines (before ++ second :: rest) := by
  induction before with
  | nil => exact joinNewlines_drop ends (by simp [again])
  | cons head before ih =>
      have starts : ∃ next others other fewer, before ++ first :: second :: rest = next :: others ∧
          before ++ second :: rest = other :: fewer ∧ next.kind = other.kind := by
        cases before with
        | nil => exact ⟨_, _, _, _, rfl, rfl, ends.trans again.symm⟩
        | cons next before => exact ⟨_, _, _, _, rfl, rfl, rfl⟩
      obtain ⟨next, others, other, fewer, long, short, same⟩ := starts
      rw [List.cons_append, List.cons_append, long, short, joinNewlines, joinNewlines, ← long,
        ← short, ih, same]

/-- The layout does not change with one of two line ends in a row. -/
theorem layout_double {first second : Token} (ends : first.kind = .newline)
    (again : second.kind = .newline) (before rest : List Token) :
    layout (before ++ first :: second :: rest) = layout (before ++ second :: rest) := by
  unfold layout
  rw [List.dropWhile_append, List.dropWhile_append]
  split
  · rw [List.dropWhile_cons_of_pos (by simpa using ends)]
  · exact joinNewlines_double ends again _ rest

/-- The layout does not depend on what a token is apart from its kind. -/
theorem layout_map {change : Token → Token} (kinds : ∀ token, (change token).kind = token.kind)
    (tokens : List Token) : layout (tokens.map change) = (layout tokens).map change := by
  have same : (fun token : Token => decide (token.kind = .newline)) ∘ change =
      fun token => decide (token.kind = .newline) := by
    funext token
    rw [Function.comp_apply, kinds]
  unfold layout
  rw [List.dropWhile_map, same, joinNewlines_map kinds]

/-- The token if one more line follows the end of a line. -/
def pushed (line : Nat) (token : Token) : Token :=
  if token.line < line ∨ token.line = line ∧ token.kind ≠ .newline then token else token.lower 1

/-- A token that is pushed keeps its kind. -/
theorem pushed_kind (line : Nat) (token : Token) : (token.pushed line).kind = token.kind := by
  unfold pushed
  split <;> rfl

/-- Without its line a pushed token is the same. -/
theorem pushed_unlined (line : Nat) (token : Token) : (token.pushed line).unlined = token.unlined := by
  unfold pushed
  split <;> rfl

end Token

/-- The fault if one more line follows the end of a line. -/
def LexicalError.pushed (line : Nat) (error : LexicalError) : LexicalError :=
  if error.line ≤ line then error else error.lower 1

namespace Mark

/-- The mark if one more line follows the end of a line. -/
def pushed (line : Nat) : Mark → Mark
  | token read => token (read.pushed line)
  | fault error => fault (error.pushed line)

/-- The tokens of pushed marks are pushed. -/
theorem tokens_pushed (line : Nat) (marks : List Mark) :
    (marks.map (pushed line)).filterMap token? = (marks.filterMap token?).map (Token.pushed line) := by
  rw [List.filterMap_map, List.map_filterMap]
  congr 1
  funext mark
  cases mark <;> rfl

/-- The faults of pushed marks are pushed. -/
theorem faults_pushed (line : Nat) (marks : List Mark) :
    (marks.map (pushed line)).filterMap fault? =
      (marks.filterMap fault?).map (LexicalError.pushed line) := by
  rw [List.filterMap_map, List.map_filterMap]
  congr 1
  funext mark
  cases mark <;> rfl

/-- Marks up to the line stay, apart from its end. -/
theorem pushed_before {line : Nat} {mark : Mark} (bound : mark.line ≤ line)
    (strict : mark.IsNewline → mark.line < line) : mark.pushed line = mark := by
  cases mark with
  | token read =>
      apply congrArg token
      apply if_pos
      by_cases ends : read.kind = .newline
      · exact .inl (strict ⟨read, rfl, ends⟩)
      · rcases Nat.lt_or_eq_of_le bound with less | same
        · exact .inl less
        · exact .inr ⟨same, ends⟩
  | fault error => exact congrArg fault (if_pos bound)

/-- Marks below the line are one line further down. -/
theorem pushed_after {line : Nat} {mark : Mark} (beyond : line < mark.line) :
    mark.pushed line = mark.lower 1 := by
  cases mark with
  | token read =>
      have later : line < read.line := beyond
      apply congrArg token
      apply if_neg
      omega
  | fault error => exact congrArg fault (if_neg (Nat.not_le_of_lt beyond))

/-- The end of the line moves down. -/
theorem pushed_newline (line : Nat) :
    (structural .newline line).pushed line = structural .newline (line + 1) := by
  apply congrArg token
  apply if_neg
  simp [Token.structural]

/-- One more idle line gives one more line end, and what follows is pushed down. -/
theorem ofSource_idle {before idle : List Char} (outside : Text.zone before ≠ .quote)
    (isIdle : Text.IsIdle idle) (after : List Char) :
    ∃ early late : List Mark,
      ofSource (before ++ '\n' :: (idle ++ '\n' :: after)) =
        early ++ structural .newline (before.count '\n' + 1) ::
          structural .newline (before.count '\n' + 1 + 1) :: late ∧
      (ofSource (before ++ '\n' :: after)).map (pushed (before.count '\n' + 1)) =
        early ++ structural .newline (before.count '\n' + 1 + 1) :: late := by
  obtain ⟨early, margin, bounds, _, reads⟩ := ofSource_outside outside
  have kept : early.map (pushed (before.count '\n' + 1)) = early := by
    rw [List.map_congr_left fun mark member => pushed_before (bounds mark member).1 (bounds mark member).2]
    exact List.map_id _
  have moved : (margin.read (before.count '\n' + 1 + 1) (some 0) (Piece.cut 0 after)).map
      (pushed (before.count '\n' + 1)) =
        margin.read (before.count '\n' + 1 + 1 + 1) (some 0) (Piece.cut 0 after) := by
    rw [margin.read_lower (before.count '\n' + 1 + 1) 1]
    apply List.map_congr_left
    intro mark member
    exact pushed_after (margin.read_mark_le (Piece.cut_proper after) _ _ mark member)
  refine ⟨early, margin.read (before.count '\n' + 1 + 1 + 1) (some 0) (Piece.cut 0 after), ?_, ?_⟩
  · rw [reads, Margin.read_idle isIdle]
  · rw [reads, List.map_append, List.map_cons, kept, moved, pushed_newline]

end Mark

namespace Token

variable {before idle : List Char} (outside : Text.zone before ≠ .quote) (isIdle : Text.IsIdle idle)
  (after : List Char)
include outside isIdle

/-- One more idle line pushes the layout down. -/
theorem layout_idle :
    layout (read (before ++ '\n' :: (idle ++ '\n' :: after))).1 =
      (layout (read (before ++ '\n' :: after)).1).map (pushed (before.count '\n' + 1)) := by
  obtain ⟨early, late, long, short⟩ := Mark.ofSource_idle outside isIdle after
  rw [← layout_map (pushed_kind _)]
  unfold read
  dsimp only
  rw [← Mark.tokens_pushed, long, short, List.filterMap_append, List.filterMap_append]
  exact layout_double rfl rfl _ _

/-- One more idle line pushes the faults down. -/
theorem faults_idle :
    (read (before ++ '\n' :: (idle ++ '\n' :: after))).2 =
      (read (before ++ '\n' :: after)).2.map (LexicalError.pushed (before.count '\n' + 1)) := by
  obtain ⟨early, late, long, short⟩ := Mark.ofSource_idle outside isIdle after
  unfold read
  dsimp only
  rw [← Mark.faults_pushed, long, short, List.filterMap_append, List.filterMap_append]
  rfl

end Token

/-- Every text ends with the end of the file. -/
theorem Token.scan_ended (source : String) : ∃ token ∈ (scan source).1, token.kind = .endOfFile := by
  obtain ⟨body, last, shape, ends, _⟩ :=
    (layout_formsBlocks (Text.unifyLineEnds source.toList)).finished
  have listed : last ∈ layout (read (Text.unifyLineEnds source.toList)).1 := by
    rw [shape]
    exact List.mem_append_right body (List.mem_singleton_self last)
  exact ⟨last, listed, ends⟩

/-- One more line of blanks, or with a comment behind them, changes neither the tokens but for their lines
nor the program that they form. The faults behind it are one line further down. -/
theorem Token.scan_idle_line {source longer : String} {before idle after : List Char}
    (plain : '\r' ∉ source.toList) (shape : source.toList = before ++ '\n' :: after)
    (outside : Text.zone before ≠ .quote) (isIdle : Text.IsIdle idle) (clean : '\r' ∉ idle)
    (inserted : longer.toList = before ++ '\n' :: (idle ++ '\n' :: after)) :
    (scan longer).1.map unlined = (scan source).1.map unlined ∧
      (scan longer).1 = (scan source).1.map (pushed (before.count '\n' + 1)) ∧
      (scan longer).2 = (scan source).2.map (LexicalError.pushed (before.count '\n' + 1)) ∧
      Statement.displayAll (Program.ofTokens (scan longer).1).1 =
        Statement.displayAll (Program.ofTokens (scan source).1).1 := by
  have still : '\r' ∉ longer.toList := by
    rw [shape] at plain
    rw [inserted]
    simp only [List.mem_append, List.mem_cons, not_or] at plain ⊢
    exact ⟨plain.1, plain.2.1, clean, plain.2.1, plain.2.2⟩
  have tokens : (scan longer).1 = (scan source).1.map (pushed (before.count '\n' + 1)) := by
    show layout (read (Text.unifyLineEnds longer.toList)).1 =
      (layout (read (Text.unifyLineEnds source.toList)).1).map _
    rw [Text.unifyLineEnds_eq plain, Text.unifyLineEnds_eq still, shape, inserted]
    exact layout_idle outside isIdle after
  have faults : (scan longer).2 = (scan source).2.map (LexicalError.pushed (before.count '\n' + 1)) := by
    show (read (Text.unifyLineEnds longer.toList)).2 = (read (Text.unifyLineEnds source.toList)).2.map _
    rw [Text.unifyLineEnds_eq plain, Text.unifyLineEnds_eq still, shape, inserted]
    exact faults_idle outside isIdle after
  have unlined : (scan longer).1.map Token.unlined = (scan source).1.map Token.unlined := by
    rw [tokens, List.map_map]
    apply List.map_congr_left
    intro token _
    exact pushed_unlined _ token
  exact ⟨unlined, tokens, faults, (Program.ofTokens_unlined unlined (scan_ended longer)).1⟩

/-- The line may be narrower than the block that it stands in and wider than the line behind it. -/
theorem Token.scan_idle_line_dedent :
    Text.IsIdle "\t # c".toList ∧ Text.zone "if a\n      b".toList ≠ .quote ∧
      (scan "if a\n      b\n\t # c\n$d").1.map unlined = (scan "if a\n      b\n$d").1.map unlined ∧
      (scan "if a\n      b\n\t # c\n$d").2 = [.unexpectedCharacter '$' 4] ∧
      Statement.displayAll (Program.ofTokens (scan "if a\n      b\n\t # c\n$d").1).1 =
        Statement.displayAll (Program.ofTokens (scan "if a\n      b\n$d").1).1 := by
  have idle : Text.IsIdle "\t # c".toList :=
    ⟨['\t', ' '], ['#', ' ', 'c'], rfl, by simp [Text.IsBlank], .inr ⟨[' ', 'c'], rfl, by decide⟩⟩
  have outside : Text.zone "if a\n      b".toList ≠ .quote := by decide
  obtain ⟨unlined, _, faults, display⟩ := @scan_idle_line "if a\n      b\n$d"
    "if a\n      b\n\t # c\n$d" _ _ ['$', 'd'] (by decide) rfl outside idle (by decide) rfl
  exact ⟨idle, outside, unlined, faults, display⟩

end OffsideScript
