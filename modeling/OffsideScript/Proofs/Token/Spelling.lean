import OffsideScript.Token.Layout

namespace OffsideScript

namespace Piece

/-- A word starts with a letter or an underscore, and digits may follow. -/
def IsWord (text : List Char) : Prop :=
  ∃ first rest, text = first :: rest ∧ isWordStart first = true ∧
    ∀ character ∈ rest, isWordPart character = true

/-- One digit or more. -/
def IsDigits (text : List Char) : Prop :=
  text ≠ [] ∧ ∀ character ∈ text, character.isDigit = true

/-- Digits, or digits on both sides of a point. -/
def IsDecimal (text : List Char) : Prop :=
  IsDigits text ∨ ∃ whole fraction, text = whole ++ '.' :: fraction ∧ IsDigits whole ∧ IsDigits fraction

/-- A text that starts with a blank or a line end, or is at its end. -/
def Separates (text : List Char) : Prop :=
  ∀ character ∈ text.head?, character = ' ' ∨ character = '\t' ∨ character = '\n'

end Piece

namespace Token

/-- The lexeme and the literal of a token fit its kind. -/
def Spelled (token : Token) : Prop :=
  match token.kind with
  | .identifier =>
      Piece.IsWord token.lexeme.toList ∧ Kind.keyword? token.lexeme = none ∧ token.literal = none
  | .number =>
      Piece.IsDecimal token.lexeme.toList ∧
        token.literal = some (.number (Number.ofDigits token.lexeme.toList))
  | .text =>
      ∃ content, (∀ character ∈ content, character ≠ '\'' ∧ character ≠ '\r') ∧
        token.lexeme = String.ofList ('\'' :: content ++ ['\'']) ∧
        token.literal = some (.text (String.ofList content))
  | kind => token.lexeme = kind.spelling ∧ token.literal = none

/-- The token on another line. -/
def onLine (token : Token) (line : Nat) : Token :=
  { token with line := line }

/-- What is left of a token when its line does not count. -/
def unlined (token : Token) : Token :=
  token.onLine 0

/-- What is made for the structure of a text has its kind. -/
theorem structural_kind (kind : Kind) (line : Nat) : (structural kind line).kind = kind := rfl

/-- What is made for the structure of a text differs in its line only. -/
theorem unlined_structural (kind : Kind) (line : Nat) :
    (structural kind line).unlined = structural kind 0 := rfl

/-- A token keeps its kind on another line. -/
theorem onLine_kind (token : Token) (line : Nat) : (token.onLine line).kind = token.kind := rfl

/-- A token is the same on another line, without its line. -/
theorem unlined_onLine (token : Token) (line : Nat) : (token.onLine line).unlined = token.unlined :=
  rfl

/-- Without its line a token still has its kind. -/
theorem kind_of_unlined {token other : Token} (same : other.unlined = token.unlined) :
    other.kind = token.kind := by
  have kinds : other.unlined.kind = token.unlined.kind := by rw [same]
  exact kinds

end Token

/-- The tokens that are written out. The others follow from the lines and their widths. -/
def Token.Kind.IsWritten (kind : Token.Kind) : Prop :=
  kind ∉ [newline, indent, dedent, endOfFile]

instance (kind : Token.Kind) : Decidable kind.IsWritten :=
  inferInstanceAs (Decidable (kind ∉ _))

/-- A written token is neither a line end nor a bound of a block nor the end of the file. -/
theorem Token.Kind.IsWritten.ne {kind other : Token.Kind} (written : kind.IsWritten)
    (implied : other ∈ [newline, indent, dedent, endOfFile]) : kind ≠ other := by
  rintro rfl
  exact written implied

namespace Piece

/-- Cutting starts again behind what the last piece covers. -/
theorem cut_append (covered rest : List Char) : cut covered.length (covered ++ rest) = cut 0 rest := by
  induction covered with
  | nil => rfl
  | cons character covered ih => exact ih

/-- A text is cut after its first piece. -/
theorem cut_of_startingAt {piece : Piece} {character : Char} {covered rest : List Char}
    (starts : startingAt character (covered ++ rest) = piece)
    (text : piece.text = character :: covered) :
    cut 0 (character :: covered ++ rest) = piece :: cut 0 rest := by
  change startingAt character (covered ++ rest) ::
    cut ((startingAt character (covered ++ rest)).text.length - 1) (covered ++ rest) = _
  rw [starts, text, List.length_cons, Nat.add_sub_cancel, cut_append]

/-- The pieces that are neither blanks nor comments nor line ends. -/
def IsSolid : Piece → Prop
  | lineEnd | space | tab | comment _ => False
  | _ => True

/-- A piece that is cut off before a blank and gives one token. -/
structure Gives (piece : Piece) (token : Token) : Prop where
  solid : piece.IsSolid
  cut : ∀ rest, Separates rest →
    Piece.cut 0 (token.lexeme.toList ++ rest) = piece :: Piece.cut 0 rest
  marks : ∀ line, piece.marks line = [.token (token.onLine line)]

/-- A run goes on as long as its characters pass a test. -/
theorem takeWhile_eq {test : Char → Bool} {text rest : List Char}
    (passes : ∀ character ∈ text, test character = true)
    (stops : ∀ character ∈ rest.head?, test character = false) :
    (text ++ rest).takeWhile test = text := by
  rw [List.takeWhile_append_of_pos passes]
  cases rest with
  | nil => simp
  | cons character rest => simp [stops character rfl]

/-- What starts a word is none of the other characters. -/
theorem isWordStart_ne {character other : Char} (starts : isWordStart character = true)
    (no : isWordStart other = false) : character ≠ other := by
  rintro rfl
  rw [no] at starts
  cases starts

/-- A digit is none of the other characters. -/
theorem isDigit_ne {character other : Char} (digit : character.isDigit = true)
    (no : other.isDigit = false) : character ≠ other := by
  rintro rfl
  rw [no] at digit
  cases digit

/-- No digit starts a word. -/
theorem isDigit_of_isWordStart {character : Char} (starts : isWordStart character = true) :
    character.isDigit = false := by
  have after : ∀ least : UInt32, 57 < least → least ≤ character.val →
      character.isDigit = false := by
    intro least above within
    simp [Char.isDigit, UInt32.le_iff_toNat_le, UInt32.lt_iff_toNat_lt] at above within ⊢
    omega
  rcases Bool.or_eq_true_iff.mp starts with letter | line
  · rcases Bool.or_eq_true_iff.mp letter with upper | lower
    · exact after 'A'.val (by decide) (of_decide_eq_true upper).1
    · exact after 'a'.val (by decide) (of_decide_eq_true (Bool.and_eq_true_iff.mp lower).1)
  · rw [beq_iff_eq.mp line]
    decide

/-- At a character that starts a word there is a word as long as its parts go on. -/
theorem startingAt_isWordStart {first : Char} (starts : isWordStart first = true) (rest : List Char) :
    startingAt first rest = word (first :: rest.takeWhile isWordPart) := by
  unfold startingAt
  rw [if_neg (isWordStart_ne starts (by decide)), if_neg (isWordStart_ne starts (by decide)),
    if_neg (isWordStart_ne starts (by decide)), if_neg (isWordStart_ne starts (by decide)),
    if_neg (isWordStart_ne starts (by decide)), isDigit_of_isWordStart starts,
    if_neg Bool.false_ne_true, if_pos starts]

/-- A word that is separated from what follows is cut off whole. -/
theorem startingAt_word {first : Char} {text rest : List Char} (starts : isWordStart first = true)
    (parts : ∀ character ∈ text, isWordPart character = true) (separates : Separates rest) :
    startingAt first (text ++ rest) = word (first :: text) := by
  have stops : ∀ character ∈ rest.head?, isWordPart character = false := by
    intro character member
    rcases separates character member with rfl | rfl | rfl <;> decide
  rw [startingAt_isWordStart starts, takeWhile_eq parts stops]

/-- A quoted text is cut off up to its second quotation mark. -/
theorem startingAt_quoted {content rest : List Char}
    (plain : ∀ character ∈ content, character ≠ '\'') :
    startingAt '\'' ((content ++ ['\'']) ++ rest) = quoted content := by
  have inside : ((content ++ ['\'']) ++ rest).takeWhile (· ≠ '\'') = content := by
    rw [List.append_assoc]
    exact takeWhile_eq (by simpa using plain) (by simp)
  unfold startingAt
  rw [if_neg (by decide), if_neg (by decide), if_neg (by decide), if_neg (by decide), if_pos rfl]
  dsimp only
  rw [inside, if_pos (by simp)]

/-- What separates tokens starts with no digit. -/
theorem Separates.not_digit {rest : List Char} (separates : Separates rest) :
    ∀ character ∈ rest.head?, character.isDigit = false := by
  intro character member
  rcases separates character member with rfl | rfl | rfl <;> decide

/-- Digits that are separated from what follows are a number. -/
theorem numberAt_digits {text rest : List Char} (digits : IsDigits text)
    (separates : Separates rest) : numberAt (text ++ rest) = text := by
  unfold numberAt
  rw [takeWhile_eq digits.2 separates.not_digit]
  dsimp only
  rw [List.drop_left]
  cases rest with
  | nil => rfl
  | cons character rest =>
      rcases separates character rfl with rfl | rfl | rfl <;> rfl

/-- Digits with a point between them are a number. -/
theorem numberAt_point {whole fraction rest : List Char} (before : IsDigits whole)
    (after : IsDigits fraction) (separates : Separates rest) :
    numberAt ((whole ++ '.' :: fraction) ++ rest) = whole ++ '.' :: fraction := by
  have point : ∀ character ∈ ('.' :: (fraction ++ rest)).head?, character.isDigit = false := by
    rintro character ⟨⟩
    decide
  unfold numberAt
  rw [List.append_assoc, List.cons_append, takeWhile_eq before.2 point]
  dsimp only
  rw [List.drop_left]
  have digits := takeWhile_eq after.2 separates.not_digit
  simp only [digits]
  cases fraction with
  | nil => exact absurd rfl after.1
  | cons digit fraction => rfl

/-- A decimal starts with a digit. -/
theorem IsDecimal.starts {text : List Char} (decimal : IsDecimal text) :
    ∃ first covered, text = first :: covered ∧ first.isDigit = true := by
  rcases decimal with ⟨nonempty, digits⟩ | ⟨whole, fraction, shape, ⟨nonempty, digits⟩, _⟩
  · obtain ⟨first, covered, rfl⟩ := List.exists_cons_of_ne_nil nonempty
    exact ⟨first, covered, rfl, digits first List.mem_cons_self⟩
  · obtain ⟨first, covered, rfl⟩ := List.exists_cons_of_ne_nil nonempty
    exact ⟨first, _, shape, digits first List.mem_cons_self⟩

/-- At a digit a number starts. -/
theorem startingAt_isDigit {first : Char} (digit : first.isDigit = true) (rest : List Char) :
    startingAt first rest = number (numberAt (first :: rest)) := by
  unfold startingAt
  rw [if_neg (isDigit_ne digit (by decide)), if_neg (isDigit_ne digit (by decide)),
    if_neg (isDigit_ne digit (by decide)), if_neg (isDigit_ne digit (by decide)),
    if_neg (isDigit_ne digit (by decide)), if_pos digit]

/-- A number is cut off whole. -/
theorem startingAt_number {first : Char} {covered rest : List Char}
    (digit : first.isDigit = true) (found : numberAt (first :: covered ++ rest) = first :: covered) :
    startingAt first (covered ++ rest) = number (first :: covered) := by
  rw [List.cons_append] at found
  rw [startingAt_isDigit digit, found]

/-- What separates tokens starts with a blank or a line end only. -/
theorem Separates.head?_ne {rest : List Char} (separates : Separates rest) {character : Char}
    (other : character ∉ [' ', '\t', '\n']) : rest.head? ≠ some character := by
  intro found
  have blank := separates character found
  simp [blank] at other

/-- A symbol is cut off whole, for no blank extends it. -/
theorem startingAt_symbol {rest : List Char} (separates : Separates rest) (kind : Token.Kind)
    (written : kind.IsWritten) (fixed : kind ∉ [.identifier, .number, .text])
    (other : kind ∉ Token.Kind.keywords) :
    ∃ first covered, kind.spelling.toList = first :: covered ∧
      startingAt first (covered ++ rest) = symbol kind := by
  cases kind with
  | plus =>
      refine ⟨'+', [], rfl, ?_⟩
      change symbol (if rest.head? = some '+' then .plusPlus else .plus) = _
      rw [if_neg (separates.head?_ne (by decide))]
  | bang =>
      refine ⟨'!', [], rfl, ?_⟩
      change symbol (if rest.head? = some '=' then .bangEqual else .bang) = _
      rw [if_neg (separates.head?_ne (by decide))]
  | equal =>
      refine ⟨'=', [], rfl, ?_⟩
      change symbol (if rest.head? = some '=' then .equalEqual
        else if rest.head? = some '>' then .fatArrow else .equal) = _
      rw [if_neg (separates.head?_ne (by decide)), if_neg (separates.head?_ne (by decide))]
  | greater =>
      refine ⟨'>', [], rfl, ?_⟩
      change symbol (if rest.head? = some '=' then .greaterEqual else .greater) = _
      rw [if_neg (separates.head?_ne (by decide))]
  | less =>
      refine ⟨'<', [], rfl, ?_⟩
      change symbol (if rest.head? = some '=' then .lessEqual else .less) = _
      rw [if_neg (separates.head?_ne (by decide))]
  | identifier | number | text => exact absurd fixed (by decide)
  | newline | indent | dedent | endOfFile => exact absurd written (by decide)
  | andWord | orWord | xorWord | ifWord | elifWord | elseWord | trueWord | falseWord | funcWord
    | retWord | letWord | whileWord | printWord | nihlWord | breakWord | continueWord =>
      exact absurd other (by decide)
  | _ => exact ⟨_, _, rfl, rfl⟩

end Piece

namespace Token.Spelled

/-- A token of another kind is spelled as its kind is. -/
theorem fixed {token : Token} (spelled : token.Spelled)
    (other : token.kind ∉ [.identifier, .number, .text]) :
    token.lexeme = token.kind.spelling ∧ token.literal = none := by
  unfold Spelled at spelled
  cases kind : token.kind with
  | identifier | number | text =>
      rw [kind] at other
      exact absurd other (by decide)
  | _ =>
      rw [kind] at spelled
      exact spelled

/-- No carriage return is part of a token. -/
theorem no_return {token : Token} (spelled : token.Spelled) : '\r' ∉ token.lexeme.toList := by
  have digits {text : List Char} (digits : Piece.IsDigits text) : '\r' ∉ text :=
    fun member => absurd (digits.2 _ member) (by decide)
  by_cases varies : token.kind ∈ [.identifier, .number, .text]
  · unfold Spelled at spelled
    simp only [List.mem_cons, List.not_mem_nil, or_false] at varies
    rcases varies with kind | kind | kind <;> rw [kind] at spelled
    · obtain ⟨⟨first, rest, shape, starts, parts⟩, _⟩ := spelled
      rw [shape]
      rintro (_ | ⟨_, member⟩)
      · exact absurd starts (by decide)
      · exact absurd (parts _ member) (by decide)
    · rcases spelled.1 with whole | ⟨whole, fraction, shape, before, after⟩
      · exact digits whole
      · rw [shape]
        simp [digits before, digits after]
    · obtain ⟨content, plain, lexeme, _⟩ := spelled
      have inside : '\r' ∉ content := fun member => (plain _ member).2 rfl
      rw [lexeme, String.toList_ofList]
      simp [inside]
  · rw [(spelled.fixed varies).1]
    cases token.kind <;> decide

/-- A word is read as the token of its kind. -/
theorem gives_word {token : Token} (spelled : Piece.IsWord token.lexeme.toList)
    (kind : (Kind.keyword? token.lexeme).getD .identifier = token.kind)
    (plain : token.literal = none) : (Piece.word token.lexeme.toList).Gives token := by
  obtain ⟨first, text, shape, starts, parts⟩ := spelled
  refine ⟨trivial, fun rest separates => ?_, fun line => ?_⟩
  · rw [shape]
    exact Piece.cut_of_startingAt (Piece.startingAt_word starts parts separates) rfl
  · simp [Piece.marks, onLine, kind, ← plain]

/-- A decimal is read as a number with its value. -/
theorem gives_number {token : Token} (number : token.kind = .number)
    (spelled : Piece.IsDecimal token.lexeme.toList)
    (value : token.literal = some (.number (Number.ofDigits token.lexeme.toList))) :
    (Piece.number token.lexeme.toList).Gives token := by
  have found : ∀ rest, Piece.Separates rest →
      Piece.numberAt (token.lexeme.toList ++ rest) = token.lexeme.toList := by
    intro rest separates
    rcases spelled with digits | ⟨whole, fraction, shape, before, after⟩
    · exact Piece.numberAt_digits digits separates
    · rw [shape]
      exact Piece.numberAt_point before after separates
  obtain ⟨first, covered, shape, digit⟩ := spelled.starts
  refine ⟨trivial, fun rest separates => ?_, fun line => ?_⟩
  · have whole := found rest separates
    rw [shape] at whole ⊢
    exact Piece.cut_of_startingAt (Piece.startingAt_number digit whole) rfl
  · simp [Piece.marks, onLine, ← number, ← value]

/-- A quoted text is read as a text with its content. -/
theorem gives_text {token : Token} {content : List Char} (text : token.kind = .text)
    (plain : ∀ character ∈ content, character ≠ '\'')
    (spelled : token.lexeme = String.ofList ('\'' :: content ++ ['\'']))
    (value : token.literal = some (.text (String.ofList content))) :
    (Piece.quoted content).Gives token := by
  refine ⟨trivial, fun rest separates => ?_, fun line => ?_⟩
  · rw [spelled, String.toList_ofList]
    exact Piece.cut_of_startingAt (Piece.startingAt_quoted plain) rfl
  · simp [Piece.marks, Piece.text, onLine, ← text, ← value, spelled]

/-- A keyword is a word. -/
theorem keyword_isWord {kind : Kind} (keyword : kind ∈ Kind.keywords) :
    Piece.IsWord kind.spelling.toList := by
  cases kind with
  | andWord | orWord | xorWord | ifWord | elifWord | elseWord | trueWord | falseWord | funcWord
    | retWord | letWord | whileWord | printWord | nihlWord | breakWord | continueWord =>
      exact ⟨_, _, rfl, rfl, List.all_eq_true.mp rfl⟩
  | _ => exact absurd keyword (by decide)

/-- A keyword is read as a word. -/
theorem gives_keyword {token : Token} (keyword : token.kind ∈ Kind.keywords)
    (spelled : token.lexeme = token.kind.spelling) (plain : token.literal = none) :
    (Piece.word token.lexeme.toList).Gives token := by
  have found : ∀ kind ∈ Kind.keywords, Kind.keyword? kind.spelling = some kind := by decide
  refine gives_word (spelled ▸ keyword_isWord keyword) ?_ plain
  rw [spelled, found _ keyword]
  rfl

/-- A symbol is read as itself. -/
theorem gives_symbol {token : Token} (written : token.kind.IsWritten)
    (fixed : token.kind ∉ [.identifier, .number, .text]) (other : token.kind ∉ Kind.keywords)
    (spelled : token.lexeme = token.kind.spelling) (plain : token.literal = none) :
    (Piece.symbol token.kind).Gives token := by
  refine ⟨trivial, fun rest separates => ?_, fun line => ?_⟩
  · obtain ⟨first, covered, shape, starts⟩ :=
      Piece.startingAt_symbol separates token.kind written fixed other
    rw [spelled, shape]
    exact Piece.cut_of_startingAt starts shape
  · simp [Piece.marks, onLine, ← spelled, ← plain]

/-- A token that is spelled out is read from its piece. -/
theorem gives {token : Token} (spelled : token.Spelled) (written : token.kind.IsWritten) :
    ∃ piece : Piece, piece.Gives token := by
  by_cases varies : token.kind ∈ [.identifier, .number, .text]
  · unfold Spelled at spelled
    simp only [List.mem_cons, List.not_mem_nil, or_false] at varies
    rcases varies with kind | kind | kind <;> rw [kind] at spelled
    · obtain ⟨word, free, plain⟩ := spelled
      exact ⟨_, gives_word word (by rw [free, kind]; rfl) plain⟩
    · exact ⟨_, gives_number kind spelled.1 spelled.2⟩
    · obtain ⟨content, plain, lexeme, value⟩ := spelled
      exact ⟨_, gives_text kind (fun character member => (plain character member).1) lexeme value⟩
  · have fixed := spelled.fixed varies
    by_cases keyword : token.kind ∈ Kind.keywords
    · exact ⟨_, gives_keyword keyword fixed.1 fixed.2⟩
    · exact ⟨_, gives_symbol written varies keyword fixed.1 fixed.2⟩

end Token.Spelled

end OffsideScript
