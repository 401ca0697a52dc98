/-
This file says what the tokens and the faults of a text are, apart from how it is read. A text is made of
lexemes, blanks, line ends, comments and characters that start nothing. Each lexeme is the longest one at
its place, and a line is told by the line ends before it. Reading finds exactly these tokens and faults.
-/

import OffsideScript.Proofs.Token.Lines
import OffsideScript.Proofs.Token.Offside

namespace OffsideScript

namespace Token

/-- A token of the language is written at the start of a text. -/
structure StartsText (token : Token) (text : List Char) : Prop where
  spelled : token.Spelled
  written : token.kind.IsWritten
  starts : token.lexeme.toList <+: text

/-- No token of the language at the start of the text is longer. -/
structure LongestAt (token : Token) (text : List Char) : Prop extends token.StartsText text where
  longest : ∀ other : Token, other.StartsText text →
    other.lexeme.toList.length ≤ token.lexeme.toList.length

end Token

/-- A text behind another one consists of pieces that give the tokens and the faults, in this order. A
token or a fault stands on the line that its piece starts on. -/
inductive Text.Covered : List Char → List Char → List Token → List LexicalError → Prop where
  | done {before : List Char} : Covered before [] [] []
  | blank {before text : List Char} {tokens : List Token} {faults : List LexicalError}
      {character : Char} (blank : character = ' ' ∨ character = '\t')
      (rest : Covered (before ++ [character]) text tokens faults) :
      Covered before (character :: text) tokens faults
  | lineEnd {before text : List Char} {tokens : List Token} {faults : List LexicalError}
      (rest : Covered (before ++ ['\n']) text tokens faults) :
      Covered before ('\n' :: text) tokens faults
  | comment {before body text : List Char} {tokens : List Token} {faults : List LexicalError}
      (short : '\n' ∉ body) (ends : ∀ next ∈ text.head?, next = '\n')
      (rest : Covered (before ++ '#' :: body) text tokens faults) :
      Covered before ('#' :: (body ++ text)) tokens faults
  | lexeme {before text : List Char} {token : Token} {tokens : List Token}
      {faults : List LexicalError} (longest : token.LongestAt (token.lexeme.toList ++ text))
      (line : token.line = before.count '\n' + 1)
      (rest : Covered (before ++ token.lexeme.toList) text tokens faults) :
      Covered before (token.lexeme.toList ++ text) (token :: tokens) faults
  | stray {before text : List Char} {tokens : List Token} {faults : List LexicalError}
      {character : Char} (other : character ∉ ['\n', ' ', '\t', '#', '\''])
      (foreign : ∀ token : Token, ¬token.StartsText (character :: text))
      (rest : Covered (before ++ [character]) text tokens faults) :
      Covered before (character :: text) tokens
        (.unexpectedCharacter character (before.count '\n' + 1) :: faults)
  | unclosed {before content : List Char} (unended : '\'' ∉ content) :
      Covered before ('\'' :: content) [] [.unterminatedText (before.count '\n' + 1)]

namespace Piece

/-- The pieces that are tokens. -/
def IsLexeme : Piece → Prop
  | symbol _ | number _ | word _ | quoted _ => True
  | _ => False

/-- What passes a test is not longer than all that does. -/
theorem length_le_takeWhile {test : Char → Bool} {start text : List Char}
    (passes : ∀ character ∈ start, test character = true) (starts : start <+: text) :
    start.length ≤ (text.takeWhile test).length := by
  obtain ⟨rest, rfl⟩ := starts
  rw [List.takeWhile_append_of_pos passes, List.length_append]
  omega

/-- What is cut off at a digit is a decimal. -/
theorem numberAt_isDecimal {first : Char} (digit : first.isDigit = true) (rest : List Char) :
    IsDecimal (numberAt (first :: rest)) := by
  have digits (text : List Char) (nonempty : text.takeWhile Char.isDigit ≠ []) :
      IsDigits (text.takeWhile Char.isDigit) :=
    ⟨nonempty, fun character member => List.mem_takeWhile_imp member⟩
  have whole : IsDigits ((first :: rest).takeWhile Char.isDigit) := by
    apply digits
    rw [List.takeWhile_cons_of_pos digit]
    exact List.cons_ne_nil _ _
  unfold numberAt
  dsimp only
  split
  · next fraction _ =>
      split
      · exact .inl whole
      · next nonempty => exact .inr ⟨_, _, rfl, whole, digits fraction nonempty⟩
  · exact .inl whole

/-- A number has at least the digits in front. -/
theorem takeWhile_length_le_numberAt (text : List Char) :
    (text.takeWhile Char.isDigit).length ≤ (numberAt text).length := by
  unfold numberAt
  dsimp only
  split
  · split
    · omega
    · rw [List.length_append]
      omega
  · omega

/-- No decimal at the start of a text is longer than the one that is cut off. -/
theorem length_le_numberAt {start text : List Char} (decimal : IsDecimal start)
    (starts : start <+: text) : start.length ≤ (numberAt text).length := by
  rcases decimal with digits | ⟨whole, fraction, rfl, before, after⟩
  · have short := length_le_takeWhile digits.2 starts
    have bound := takeWhile_length_le_numberAt text
    omega
  · obtain ⟨rest, rfl⟩ := starts
    have first : ((whole ++ '.' :: fraction) ++ rest).takeWhile Char.isDigit = whole := by
      rw [List.append_assoc]
      apply takeWhile_eq before.2
      rintro character ⟨⟩
      decide
    have second := length_le_takeWhile after.2 (List.prefix_append fraction rest)
    have nonempty := List.length_pos_iff.mpr after.1
    unfold numberAt
    rw [first]
    dsimp only
    rw [List.append_assoc, List.drop_left, List.cons_append]
    split
    · next same =>
        obtain ⟨_, rfl⟩ := List.cons.inj same
        split
        · next empty =>
            rw [empty, List.length_nil] at second
            omega
        · rw [List.length_append, List.length_append, List.length_cons, List.length_cons]
          omega
    · next other => exact absurd rfl (other _)

/-- A piece has at least one character. -/
theorem startingAt_pos (character : Char) (rest : List Char) :
    1 ≤ (startingAt character rest).text.length := by
  obtain ⟨covered, after, _, text⟩ := text_startingAt character rest
  rw [text, List.length_cons]
  omega

section Longest

variable {character : Char} {rest start : List Char}

/-- A piece at the start of a text is a token and not shorter than some text. -/
def Outdoes (character : Char) (rest start : List Char) : Prop :=
  (startingAt character rest).IsLexeme ∧ start.length ≤ (startingAt character rest).text.length

/-- A word at the start of a text is outdone by the longest word. -/
theorem outdoes_word (word : IsWord start) (starts : start <+: character :: rest) :
    Outdoes character rest start := by
  obtain ⟨first, others, rfl, begins, parts⟩ := word
  obtain ⟨rfl, behind⟩ := List.cons_prefix_cons.mp starts
  unfold Outdoes
  rw [startingAt_isWordStart begins]
  have short := length_le_takeWhile parts behind
  refine ⟨trivial, ?_⟩
  simp only [text, List.length_cons]
  omega

/-- A decimal at the start of a text is outdone by the longest decimal. -/
theorem outdoes_number (decimal : IsDecimal start) (starts : start <+: character :: rest) :
    Outdoes character rest start := by
  obtain ⟨first, covered, rfl, digit⟩ := decimal.starts
  obtain ⟨rfl, _⟩ := List.cons_prefix_cons.mp starts
  unfold Outdoes
  rw [startingAt_isDigit digit]
  exact ⟨trivial, length_le_numberAt decimal starts⟩

/-- A quoted text is outdone by what is cut off at its first quotation mark. -/
theorem outdoes_quoted {content : List Char} (plain : ∀ character ∈ content, character ≠ '\'')
    (starts : '\'' :: content ++ ['\''] <+: character :: rest) :
    Outdoes character rest ('\'' :: content ++ ['\'']) := by
  obtain ⟨rfl, after, rfl⟩ := List.cons_prefix_cons.mp starts
  have closed := @startingAt_quoted content after plain
  unfold Outdoes
  change (startingAt '\'' ((content ++ ['\'']) ++ after)).IsLexeme ∧ _ ≤
    (startingAt '\'' ((content ++ ['\'']) ++ after)).text.length
  rw [closed]
  exact ⟨trivial, Nat.le_refl _⟩

/-- A symbol of one character is outdone by whatever token starts with it. -/
theorem outdoes_single {first : Char} (starts : [first] <+: character :: rest)
    (lexeme : ∀ rest, (startingAt first rest).IsLexeme) : Outdoes character rest [first] := by
  obtain ⟨rfl, _⟩ := List.cons_prefix_cons.mp starts
  exact ⟨lexeme rest, startingAt_pos first rest⟩

/-- A symbol of two characters is cut off as it is. -/
theorem outdoes_pair {first second : Char} {kind : Token.Kind}
    (starts : [first, second] <+: character :: rest) (spelled : kind.spelling.toList = [first, second])
    (long : ∀ rest, startingAt first (second :: rest) = symbol kind) :
    Outdoes character rest [first, second] := by
  obtain ⟨rfl, behind⟩ := List.cons_prefix_cons.mp starts
  obtain ⟨after, rfl⟩ := behind
  unfold Outdoes
  rw [List.singleton_append, long, text, spelled]
  exact ⟨trivial, Nat.le_refl _⟩

/-- Every symbol at the start of a text is outdone. -/
theorem outdoes_symbol {kind : Token.Kind} (written : kind.IsWritten)
    (fixed : kind ∉ [.identifier, .number, .text]) (other : kind ∉ Token.Kind.keywords)
    (starts : kind.spelling.toList <+: character :: rest) :
    Outdoes character rest kind.spelling.toList := by
  cases kind with
  | plusPlus | bangEqual | equalEqual | fatArrow | greaterEqual | lessEqual =>
      exact outdoes_pair starts rfl fun _ => rfl
  | identifier | number | text => exact absurd fixed (by decide)
  | newline | indent | dedent | endOfFile => exact absurd written (by decide)
  | andWord | orWord | xorWord | ifWord | elifWord | elseWord | trueWord | falseWord | funcWord
    | retWord | letWord | whileWord | printWord | nihlWord | breakWord | continueWord =>
      exact absurd other (by decide)
  | _ => exact outdoes_single starts fun _ => trivial

/-- Where a token of the language starts, a token that is not shorter is cut off. -/
theorem outdoes_of_startsText {token : Token} (starts : token.StartsText (character :: rest)) :
    Outdoes character rest token.lexeme.toList := by
  obtain ⟨spelled, written, begins⟩ := starts
  by_cases varies : token.kind ∈ [.identifier, .number, .text]
  · unfold Token.Spelled at spelled
    simp only [List.mem_cons, List.not_mem_nil, or_false] at varies
    rcases varies with kind | kind | kind <;> rw [kind] at spelled
    · exact outdoes_word spelled.1 begins
    · exact outdoes_number spelled.1 begins
    · obtain ⟨content, plain, lexeme, _⟩ := spelled
      rw [lexeme, String.toList_ofList] at begins ⊢
      exact outdoes_quoted (fun character member => (plain character member).1) begins
  · have lexeme := (spelled.fixed varies).1
    rw [lexeme] at begins ⊢
    by_cases keyword : token.kind ∈ Token.Kind.keywords
    · exact outdoes_word (Token.Spelled.keyword_isWord keyword) begins
    · exact outdoes_symbol written varies keyword begins

end Longest

end Piece

namespace Token

/-- A token with a fixed spelling is spelled by it. -/
theorem Spelled.of_fixed {token : Token} (other : token.kind ∉ [.identifier, .number, .text])
    (lexeme : token.lexeme = token.kind.spelling) (plain : token.literal = none) :
    token.Spelled := by
  unfold Spelled
  split
  · next kind => exact absurd (by simp [kind]) other
  · next kind => exact absurd (by simp [kind]) other
  · next kind => exact absurd (by simp [kind]) other
  · exact ⟨lexeme, plain⟩

/-- A word is spelled as a keyword or as a name. -/
theorem spelled_word {text : List Char} (word : Piece.IsWord text) (line : Nat) :
    Token.Spelled ⟨(Kind.keyword? (String.ofList text)).getD .identifier, String.ofList text, line,
      none⟩ := by
  cases found : Kind.keyword? (String.ofList text) with
  | none =>
      show Piece.IsWord (String.ofList text).toList ∧ _ ∧ _
      rw [String.toList_ofList]
      exact ⟨word, found, rfl⟩
  | some kind =>
      have keyword := List.mem_of_find?_eq_some found
      have spelled : kind.spelling = String.ofList text := by
        simpa using List.find?_some found
      have other : ∀ kind ∈ Kind.keywords, kind ∉ [.identifier, .number, .text] := by decide
      exact .of_fixed (other kind keyword) spelled.symm rfl

/-- The lexeme of a written token is not empty. -/
theorem Spelled.lexeme_cons {token : Token} (spelled : token.Spelled)
    (written : token.kind.IsWritten) :
    ∃ character covered, token.lexeme.toList = character :: covered := by
  obtain ⟨piece, gives⟩ := spelled.gives written
  apply List.exists_cons_of_ne_nil
  intro empty
  have cut := gives.cut [] (by simp [Piece.Separates])
  rw [empty] at cut
  cases cut

/-- A token is told by its lexeme and its line. -/
theorem Spelled.eq_of_lexeme {first second : Token} (one : first.Spelled) (two : second.Spelled)
    (written : first.kind.IsWritten) (visible : second.kind.IsWritten)
    (lexeme : first.lexeme = second.lexeme) (line : first.line = second.line) : first = second := by
  obtain ⟨left, gives⟩ := one.gives written
  obtain ⟨right, others⟩ := two.gives visible
  have cut := gives.cut [] (by simp [Piece.Separates])
  rw [lexeme, others.cut [] (by simp [Piece.Separates])] at cut
  have marks := others.marks first.line
  rw [(List.cons.inj cut).1, gives.marks] at marks
  have same : first.onLine first.line = second.onLine first.line :=
    Mark.token.inj (List.cons.inj marks).1
  rw [line] at same
  calc
    first = first.onLine second.line := by rw [← line]; rfl
    _ = second := same

end Token

namespace Piece

/-- A piece that is a token gives a token of the language which is written there. -/
theorem IsLexeme.token {character : Char} {rest : List Char} (plain : '\r' ∉ character :: rest)
    (lexeme : (startingAt character rest).IsLexeme) (line : Nat) :
    ∃ token : Token, (startingAt character rest).marks line = [.token token] ∧ token.line = line ∧
      token.lexeme.toList = (startingAt character rest).text ∧ token.Spelled := by
  revert lexeme
  apply startingAt_cases (motive := fun piece => piece.IsLexeme → ∃ token : Token,
    piece.marks line = [.token token] ∧ token.line = line ∧ token.lexeme.toList = piece.text ∧
      token.Spelled)
  case lineEnd | space | tab | comment | unclosed => exact fun _ lexeme => lexeme.elim
  case stray => exact fun lexeme => lexeme.elim
  case quoted =>
    intro quote shorter _
    refine ⟨_, rfl, rfl, String.toList_ofList, _, ?_, rfl, rfl⟩
    intro inside member
    constructor
    · simpa using List.mem_takeWhile_imp member
    · rintro rfl
      exact plain (List.mem_cons_of_mem _ ((List.takeWhile_sublist _).subset member))
  case number =>
    intro digit _
    refine ⟨_, rfl, rfl, String.toList_ofList, ?_⟩
    show IsDecimal (String.ofList _).toList ∧ _
    rw [String.toList_ofList]
    exact ⟨numberAt_isDecimal digit rest, rfl⟩
  case word =>
    intro begins _
    refine ⟨_, rfl, rfl, String.toList_ofList, Token.spelled_word ⟨_, _, rfl, begins, ?_⟩ line⟩
    exact fun part member => List.mem_takeWhile_imp member
  case symbol =>
    intro kind found _
    obtain ⟨_, covered, after, _, spelled⟩ := symbolAt?_starts found
    refine ⟨_, rfl, rfl, rfl, .of_fixed ?_ rfl rfl⟩
    intro varies
    simp only [List.mem_cons, List.not_mem_nil, or_false] at varies
    rcases varies with rfl | rfl | rfl <;> cases spelled

/-- A piece that is a token gives the longest one at its start. -/
theorem IsLexeme.longest {character : Char} {rest : List Char} (plain : '\r' ∉ character :: rest)
    (lexeme : (startingAt character rest).IsLexeme) (line : Nat) :
    ∃ token : Token, (startingAt character rest).marks line = [.token token] ∧ token.line = line ∧
      token.lexeme.toList = (startingAt character rest).text ∧
      token.LongestAt (character :: rest) := by
  obtain ⟨token, marks, here, text, spelled⟩ := lexeme.token plain line
  obtain ⟨covered, after, whole, covers⟩ := text_startingAt character rest
  have written : token.kind.IsWritten := by
    apply (startingAt_proper character rest).written line
    rw [marks]
    exact List.mem_singleton_self _
  have starts : token.lexeme.toList <+: character :: rest := by
    rw [text, covers, whole, ← List.cons_append]
    exact List.prefix_append _ _
  refine ⟨token, marks, here, text, ⟨spelled, written, starts⟩, fun other others => ?_⟩
  rw [text]
  exact (outdoes_of_startsText others).2

/-- The longest token at the start of a text is the one that is cut off. -/
theorem startingAt_longest {token : Token} {character : Char} {rest : List Char}
    (plain : '\r' ∉ character :: rest) (longest : token.LongestAt (character :: rest)) :
    (startingAt character rest).text = token.lexeme.toList ∧
      (startingAt character rest).marks token.line = [.token token] := by
  obtain ⟨lexeme, bound⟩ := outdoes_of_startsText longest.toStartsText
  obtain ⟨found, marks, line, text, isLongest⟩ := lexeme.longest plain token.line
  have short := longest.longest found isLongest.toStartsText
  have same : token.lexeme.toList = found.lexeme.toList := by
    apply (List.prefix_of_prefix_length_le longest.starts isLongest.starts ?_).eq_of_length_le short
    rw [text]
    exact bound
  have equal : token = found :=
    longest.spelled.eq_of_lexeme isLongest.spelled longest.written isLongest.written
      (String.toList_injective same) line.symm
  rw [marks, ← text, equal]
  exact ⟨rfl, rfl⟩

/-- A stray character is no blank, no line end, and starts neither a comment nor a quote. -/
theorem stray_other {character other : Char} {rest : List Char}
    (starts : startingAt character rest = stray other) :
    character ∉ ['\n', ' ', '\t', '#', '\''] := by
  intro member
  simp only [List.mem_cons, List.not_mem_nil, or_false] at member
  rcases member with rfl | rfl | rfl | rfl | rfl
  · cases starts
  · cases starts
  · cases starts
  · cases starts
  · obtain ⟨content, _, ⟨closed, _⟩ | ⟨unclosed, _⟩⟩ := startingAt_quote rest
    · rw [closed] at starts
      cases starts
    · rw [unclosed] at starts
      cases starts

/-- The tokens and the faults that pieces give apart from the starts of lines. -/
def marksFrom (line : Nat) : List Piece → List Mark
  | [] => []
  | piece :: rest => piece.marks line ++ marksFrom (line + piece.lineEnds) rest

/-- The marks of a text are those of its first piece and of what follows it. -/
theorem marksFrom_behind {before covered after : List Char} {character : Char} {piece : Piece}
    (starts : startingAt character (covered ++ after) = piece)
    (text : piece.text = character :: covered) :
    marksFrom (before.count '\n' + 1) (cut 0 (character :: covered ++ after)) =
      piece.marks (before.count '\n' + 1) ++
        marksFrom ((before ++ character :: covered).count '\n' + 1) (cut 0 after) := by
  have count : before.count '\n' + 1 + piece.lineEnds =
      (before ++ character :: covered).count '\n' + 1 := by
    unfold lineEnds
    rw [text, List.count_append]
    omega
  rw [cut_of_startingAt starts text, marksFrom, count]

end Piece

namespace Mark

/-- A written token, or a fault that is not about the start of a line. -/
def IsOwn : Mark → Prop
  | token read => read.kind.IsWritten
  | fault error => error.misfit? = none

instance (mark : Mark) : Decidable mark.IsOwn :=
  match mark with
  | token read => inferInstanceAs (Decidable read.kind.IsWritten)
  | fault error => inferInstanceAs (Decidable (error.misfit? = none))

/-- What stands for the structure of a text is not written. -/
theorem not_isOwn_structural {kind : Token.Kind} (implied : ¬kind.IsWritten) (line : Nat) :
    ¬(structural kind line).IsOwn :=
  implied

/-- The written tokens are those of the pieces. -/
theorem tokens_own (marks : List Mark) :
    (marks.filterMap token?).filter (·.kind.IsWritten) =
      (marks.filter (·.IsOwn)).filterMap token? := by
  rw [List.filter_filterMap, List.filterMap_filter]
  congr 1
  funext mark
  cases mark with
  | token read => by_cases written : read.kind.IsWritten <;> simp [token?, IsOwn, written]
  | fault error => simp [token?]

/-- The faults that are not about indentation are those of the pieces. -/
theorem faults_own (marks : List Mark) :
    (marks.filterMap fault?).filter (·.misfit? = none) =
      (marks.filter (·.IsOwn)).filterMap fault? := by
  rw [List.filter_filterMap, List.filterMap_filter]
  congr 1
  funext mark
  cases mark with
  | token read => simp [fault?]
  | fault error => by_cases own : error.misfit? = none <;> simp [fault?, IsOwn, own]

end Mark

namespace Piece

/-- The marks of a piece are its own. -/
theorem marks_own {piece : Piece} (proper : piece.IsProper) (line : Nat) :
    ∀ mark ∈ piece.marks line, mark.IsOwn := by
  intro mark member
  cases mark with
  | token read => exact proper.written line read member
  | fault error =>
      cases piece with
      | unclosed | stray =>
          cases List.mem_singleton.mp member
          rfl
      | _ => simp [marks] at member

end Piece

namespace Margin

/-- The marks at the start of a line belong to no piece. -/
theorem enter_not_own (margin : Margin) (column line : Nat) :
    ∀ mark ∈ (margin.enter column line).2, ¬mark.IsOwn := by
  unfold enter
  intro mark member
  split at member
  · cases List.mem_singleton.mp member
    exact Mark.not_isOwn_structural (by decide) line
  · rcases List.mem_append.mp member with dedent | fault
    · rw [List.eq_of_mem_replicate dedent]
      exact Mark.not_isOwn_structural (by decide) line
    · split at fault
      · cases fault
      · cases List.mem_singleton.mp fault
        exact Option.some_ne_none _

/-- The marks at the end of a text belong to no piece. -/
theorem finish_not_own (margin : Margin) (line : Nat) : ∀ mark ∈ margin.finish line, ¬mark.IsOwn := by
  intro mark member
  obtain ⟨kind, implied, rfl⟩ := margin.finish_structural line mark member
  exact Mark.not_isOwn_structural implied line

/-- The open blocks have no part in what pieces give on their own. -/
theorem read_own {pieces : List Piece} (proper : ∀ piece ∈ pieces, piece.IsProper) (margin : Margin)
    (line : Nat) (column : Option Nat) :
    (margin.read line column pieces).filter (·.IsOwn) = Piece.marksFrom line pieces := by
  have silent {marks : List Mark} (implied : ∀ mark ∈ marks, ¬mark.IsOwn) :
      marks.filter (·.IsOwn) = [] :=
    List.filter_eq_nil_iff.mpr fun mark member => by simpa using implied mark member
  induction pieces generalizing margin line column with
  | nil => exact silent (margin.finish_not_own line)
  | cons piece rest ih =>
      obtain ⟨here, others⟩ := List.forall_mem_cons.mp proper
      by_cases solid : piece.IsSolid
      · rw [read_solid solid, List.filter_append, List.filter_append, ih others,
          List.filter_eq_self.mpr fun mark member =>
            decide_eq_true (Piece.marks_own here line mark member)]
        cases column with
        | none => rfl
        | some column => rw [silent (margin.enter_not_own column line)]; rfl
      · cases piece with
        | lineEnd => exact ih others margin (line + 1) (some 0)
        | space | tab => exact ih others margin line _
        | comment body =>
            have short : (Piece.comment body).lineEnds = 0 := by
              simpa [Piece.lineEnds, Piece.text, List.count_eq_zero] using here.short body rfl
            unfold Piece.marksFrom
            rw [short]
            exact ih others margin line _
        | _ => exact absurd trivial solid

end Margin

/-- What is read, apart from indentation, are the marks of the pieces. -/
theorem Token.read_own (text : List Char) :
    (Token.read text).1.filter (·.kind.IsWritten) =
        (Piece.marksFrom 1 (Piece.cut 0 text)).filterMap Mark.token? ∧
      (Token.read text).2.filter (·.misfit? = none) =
        (Piece.marksFrom 1 (Piece.cut 0 text)).filterMap Mark.fault? := by
  unfold Token.read
  rw [Mark.tokens_own, Mark.faults_own]
  unfold Mark.ofSource Piece.ofSource
  rw [Margin.read_own (Piece.cut_proper text)]
  exact ⟨rfl, rfl⟩

namespace Text

/-- Cutting covers a text. -/
theorem covered_cut {text : List Char} (plain : '\r' ∉ text) (before : List Char) :
    Covered before text
      ((Piece.marksFrom (before.count '\n' + 1) (Piece.cut 0 text)).filterMap Mark.token?)
      ((Piece.marksFrom (before.count '\n' + 1) (Piece.cut 0 text)).filterMap Mark.fault?) := by
  induction text using Piece.cut_induction generalizing before with
  | empty => exact .done
  | step character covered after text _ ih =>
      have later : '\r' ∉ after := by
        intro member
        exact plain (List.mem_cons_of_mem _ (List.mem_append_right _ member))
      have rest := ih later (before ++ character :: covered)
      rw [← List.cons_append, Piece.marksFrom_behind rfl text, List.filterMap_append,
        List.filterMap_append]
      by_cases lexeme : (Piece.startingAt character (covered ++ after)).IsLexeme
      · obtain ⟨token, marks, line, spelling, longest⟩ :=
          lexeme.longest plain (before.count '\n' + 1)
        rw [text] at spelling
        rw [← List.cons_append, ← spelling] at longest
        rw [← spelling] at rest
        rw [marks, ← spelling]
        exact .lexeme longest line rest
      · cases piece : Piece.startingAt character (covered ++ after) with
        | symbol | number | word | quoted =>
            rw [piece] at lexeme
            exact absurd trivial lexeme
        | lineEnd =>
            rw [piece] at text
            cases text
            exact .lineEnd rest
        | space =>
            rw [piece] at text
            cases text
            exact .blank (.inl rfl) rest
        | tab =>
            rw [piece] at text
            cases text
            exact .blank (.inr rfl) rest
        | comment body =>
            have ends := Piece.comment_ends piece text
            have short := (Piece.startingAt_proper character (covered ++ after)).short body piece
            rw [piece] at text
            cases text
            exact .comment short ends rest
        | unclosed content =>
            rw [piece] at text
            cases text
            obtain ⟨inner, unended, ⟨closed, _⟩ | ⟨same, whole⟩⟩ :=
              Piece.startingAt_quote (covered ++ after)
            · rw [piece] at closed
              cases closed
            · rw [piece] at same
              cases same
              obtain rfl : after = [] := List.append_right_eq_self.mp whole
              rw [List.append_nil]
              exact .unclosed unended
        | stray other =>
            have foreign (token : Token) : ¬token.StartsText (character :: (covered ++ after)) :=
              fun starts => lexeme (Piece.outdoes_of_startsText starts).1
            rw [piece] at text
            cases text
            apply Covered.stray _ foreign rest
            exact Piece.stray_other piece

/-- A character that is none of the others starts no piece but a stray one if no token starts there. -/
theorem startingAt_stray {character : Char} {rest : List Char} (plain : '\r' ∉ character :: rest)
    (other : character ∉ ['\n', ' ', '\t', '#', '\''])
    (foreign : ∀ token : Token, ¬token.StartsText (character :: rest)) :
    Piece.startingAt character rest = .stray character := by
  have absent : ¬(Piece.startingAt character rest).IsLexeme := by
    intro lexeme
    obtain ⟨token, _, _, _, longest⟩ := lexeme.longest plain 0
    exact foreign token longest.toStartsText
  obtain ⟨solid, simple⟩ := Piece.startingAt_plain other rest
  obtain ⟨covered, after, _, text⟩ := Piece.text_startingAt character rest
  cases piece : Piece.startingAt character rest with
  | lineEnd | space | tab | comment =>
      rw [piece] at solid
      exact solid.elim
  | symbol | number | word | quoted =>
      rw [piece] at absent
      exact absurd trivial absent
  | unclosed content =>
      rw [piece] at simple
      exact absurd (simple '\'' List.mem_cons_self) (by decide)
  | stray same =>
      rw [piece] at text
      cases text
      rfl

/-- No other tokens and faults cover the text. -/
theorem Covered.eq_cut {before text : List Char} {tokens : List Token} {faults : List LexicalError}
    (covered : Covered before text tokens faults) (plain : '\r' ∉ text) :
    (Piece.marksFrom (before.count '\n' + 1) (Piece.cut 0 text)).filterMap Mark.token? = tokens ∧
      (Piece.marksFrom (before.count '\n' + 1) (Piece.cut 0 text)).filterMap Mark.fault? = faults := by
  induction covered with
  | done => exact ⟨rfl, rfl⟩
  | @blank before text _ _ character blank _ ih =>
      obtain ⟨rfl, rfl⟩ := ih fun member => plain (List.mem_cons_of_mem _ member)
      rcases blank with rfl | rfl
      · rw [← List.singleton_append, Piece.marksFrom_behind rfl rfl]
        exact ⟨rfl, rfl⟩
      · rw [← List.singleton_append, Piece.marksFrom_behind rfl rfl]
        exact ⟨rfl, rfl⟩
  | lineEnd _ ih =>
      obtain ⟨rfl, rfl⟩ := ih fun member => plain (List.mem_cons_of_mem _ member)
      rw [← List.singleton_append, Piece.marksFrom_behind rfl rfl]
      exact ⟨rfl, rfl⟩
  | @comment before body text _ _ short ends _ ih =>
      obtain ⟨rfl, rfl⟩ := ih fun member => plain (List.mem_cons_of_mem _ (List.mem_append_right _ member))
      have starts := Piece.startingAt_comment short ends
      rw [← List.cons_append, Piece.marksFrom_behind starts rfl]
      exact ⟨rfl, rfl⟩
  | @lexeme before text token _ _ longest line _ ih =>
      obtain ⟨rfl, rfl⟩ := ih fun member => plain (List.mem_append_right _ member)
      obtain ⟨character, covered, shape⟩ := longest.spelled.lexeme_cons longest.written
      rw [shape, List.cons_append] at plain longest
      obtain ⟨covers, marks⟩ := Piece.startingAt_longest plain longest
      rw [shape] at covers
      rw [line] at marks
      rw [shape, Piece.marksFrom_behind rfl covers, marks]
      exact ⟨rfl, rfl⟩
  | @stray before text _ _ character other foreign _ ih =>
      obtain ⟨rfl, rfl⟩ := ih fun member => plain (List.mem_cons_of_mem _ member)
      have starts := startingAt_stray plain other foreign
      rw [← List.singleton_append, Piece.marksFrom_behind starts rfl]
      exact ⟨rfl, rfl⟩
  | @unclosed before content unended =>
      have starts : Piece.startingAt '\'' (content ++ []) = .unclosed content := by
        rw [List.append_nil]
        exact Piece.startingAt_unclosed unended
      rw [← List.append_nil ('\'' :: content), Piece.marksFrom_behind starts rfl]
      exact ⟨rfl, rfl⟩

end Text

/-- The written tokens and the faults that are not about indentation are those that cover the text. -/
theorem Token.read_covers {text : List Char} (plain : '\r' ∉ text) (tokens : List Token)
    (faults : List LexicalError) :
    Text.Covered [] text tokens faults ↔
      (Token.read text).1.filter (·.kind.IsWritten) = tokens ∧
        (Token.read text).2.filter (·.misfit? = none) = faults := by
  obtain ⟨readTokens, readFaults⟩ := Token.read_own text
  rw [readTokens, readFaults]
  constructor
  · intro covered
    exact covered.eq_cut plain
  · rintro ⟨rfl, rfl⟩
    exact Text.covered_cut plain []

/-- A point without digits behind it is no part of a number, and a quoted text may span lines. -/
theorem Token.read_covers_mixed :
    let text := "let a=>1.2.\n  'b\nc' $#d\n 'e".toList
    '\r' ∉ text ∧
      Text.Covered [] text
        [⟨.letWord, "let", 1, none⟩, ⟨.identifier, "a", 1, none⟩, ⟨.fatArrow, "=>", 1, none⟩,
          ⟨.number, "1.2", 1, some (.number (Number.ofDigits "1.2".toList))⟩,
          ⟨.text, "'b\nc'", 2, some (.text "b\nc")⟩]
        [.unexpectedCharacter '.' 1, .unexpectedCharacter '$' 3, .unterminatedText 4] := by
  refine ⟨by decide, (Token.read_covers (by decide) _ _).mpr ⟨?_, ?_⟩⟩
  · rfl
  · rfl

end OffsideScript
