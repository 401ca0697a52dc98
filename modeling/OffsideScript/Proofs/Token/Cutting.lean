import OffsideScript.Proofs.Token.Writing
import Mathlib.Data.List.TakeWhile

namespace OffsideScript

namespace Text

/-- An empty text, or one whose last line has its end. -/
def EndsLine (text : List Char) : Prop :=
  ∀ last ∈ text.getLast?, last = '\n'

/-- A text whose first line is not indented. -/
def IsFlush (text : List Char) : Prop :=
  ∀ first ∈ text.head?, first ≠ ' ' ∧ first ≠ '\t'

instance (text : List Char) : Decidable (EndsLine text) :=
  Option.decidableForallMem text.getLast?

instance (text : List Char) : Decidable (IsFlush text) :=
  Option.decidableForallMem text.head?

/-- The number of line ends. -/
def lineEnds (text : List Char) : Nat :=
  (unifyLineEnds text).count '\n'

/-- The text after a line feed is brought to one form on its own. -/
theorem joinLineEnds_line (text : List Char) :
    ∃ before, ∀ rest, joinLineEnds (text ++ '\n' :: rest) = before ++ '\n' :: joinLineEnds rest := by
  fun_induction joinLineEnds text with
  | case1 => exact ⟨[], fun rest => rfl⟩
  | case2 tail ih =>
      obtain ⟨before, joined⟩ := ih
      exact ⟨'\n' :: before, fun rest => congrArg ('\n' :: ·) (joined rest)⟩
  | case3 character tail other ih =>
      obtain ⟨before, joined⟩ := ih
      by_cases last : character = '\r' ∧ tail = []
      · obtain ⟨rfl, rfl⟩ := last
        exact ⟨[], fun rest => rfl⟩
      · refine ⟨character :: before, fun rest => ?_⟩
        have kept : ∀ others, character = '\r' → tail ++ '\n' :: rest = '\n' :: others → False := by
          intro others carriage next
          cases tail with
          | nil => exact last ⟨carriage, rfl⟩
          | cons head tail =>
              cases next
              exact other tail carriage rfl
        rw [List.cons_append, joinLineEnds.eq_3 _ _ kept, joined, List.cons_append]

/-- Up to a line feed a text is brought to one form apart from what follows. -/
theorem unifyLineEnds_line (text : List Char) :
    ∃ before, ∀ rest,
      unifyLineEnds (text ++ '\n' :: rest) = before ++ '\n' :: unifyLineEnds rest := by
  obtain ⟨before, joined⟩ := joinLineEnds_line text
  refine ⟨before.map fun character => if character = '\r' then '\n' else character, fun rest => ?_⟩
  unfold unifyLineEnds
  rw [joined, List.map_append, List.map_cons]
  rfl

/-- A text whose last line has its end is brought to one form apart from what follows. -/
theorem EndsLine.unifyLineEnds {text : List Char} (ends : EndsLine text) :
    text = [] ∨ ∃ opening, lineEnds text = opening.count '\n' + 1 ∧ ∀ rest,
      Text.unifyLineEnds (text ++ rest) = opening ++ '\n' :: Text.unifyLineEnds rest := by
  cases found : text.getLast? with
  | none => exact .inl (List.getLast?_eq_none_iff.mp found)
  | some last =>
      obtain ⟨before, rfl⟩ := List.getLast?_eq_some_iff.mp found
      cases ends last found
      obtain ⟨opening, unified⟩ := unifyLineEnds_line before
      refine .inr ⟨opening, ?_, fun rest => ?_⟩
      · unfold lineEnds
        rw [unified [], List.count_append]
        rfl
      · rw [List.append_assoc]
        exact unified rest

/-- A first line that is not indented stays so. -/
theorem IsFlush.unifyLineEnds {text : List Char} (flush : IsFlush text) :
    IsFlush (unifyLineEnds text) := by
  unfold Text.unifyLineEnds
  fun_cases joinLineEnds text with
  | case1 => exact fun first member => by cases member
  | case2 rest =>
      rintro first ⟨⟩
      decide
  | case3 character rest _ =>
      rintro first ⟨⟩
      by_cases carriage : character = '\r'
      · simp [carriage]
      · simpa [carriage] using flush character rfl

end Text

namespace Piece

/-- What ends a run ends it whatever follows. -/
theorem takeWhile_stop {test : Char → Bool} {stop : Char} (stops : test stop = false)
    (text rest : List Char) : (text ++ stop :: rest).takeWhile test = text.takeWhile test := by
  induction text with
  | nil => rw [List.nil_append, List.takeWhile_cons, stops]; rfl
  | cons character text ih =>
      rw [List.cons_append, List.takeWhile_cons, List.takeWhile_cons, ih]

/-- A number does not go beyond its line. -/
theorem numberAt_line (text more : List Char) : numberAt (text ++ '\n' :: more) = numberAt text := by
  unfold numberAt
  have whole := @takeWhile_stop Char.isDigit '\n' rfl text more
  have shape : text = text.takeWhile Char.isDigit ++ text.dropWhile Char.isDigit :=
    List.takeWhile_append_dropWhile.symm
  generalize text.takeWhile Char.isDigit = digits at whole shape
  rw [whole]
  dsimp only
  generalize text.dropWhile Char.isDigit = after at shape
  rw [shape, List.append_assoc, List.drop_left, List.drop_left]
  cases after with
  | nil => rfl
  | cons character fraction =>
      by_cases point : character = '.'
      · subst point
        simp only [List.cons_append, @takeWhile_stop Char.isDigit '\n' rfl]
      · simp [point]

/-- A symbol does not go beyond its line. -/
theorem symbolAt?_line (character : Char) (rest more : List Char) :
    symbolAt? character (rest ++ '\n' :: more) = symbolAt? character rest := by
  cases rest with
  | nil => rfl
  | cons next rest => rfl

/-- A quote that is closed in a line ends there. -/
theorem content_eq {rest : List Char} (closed : '\'' ∈ rest) (more : List Char) :
    (rest ++ more).takeWhile (· ≠ '\'') = rest.takeWhile (· ≠ '\'') := by
  obtain ⟨before, after, rfl⟩ := List.append_of_mem closed
  rw [List.append_assoc, List.cons_append, takeWhile_stop (by simp), takeWhile_stop (by simp)]

/-- What follows the content of a closed quote. -/
theorem exists_closing {rest : List Char}
    (shorter : (rest.takeWhile (· ≠ '\'')).length < rest.length) :
    ∃ after, rest = rest.takeWhile (· ≠ '\'') ++ '\'' :: after := by
  induction rest with
  | nil => cases shorter
  | cons character rest ih =>
      by_cases quote : character = '\''
      · subst quote
        exact ⟨rest, by simp⟩
      · have passes : decide (character ≠ '\'') = true := decide_eq_true quote
        simp only [List.takeWhile_cons, passes, if_true] at shorter ⊢
        obtain ⟨after, shape⟩ := ih (Nat.lt_of_succ_lt_succ shorter)
        exact ⟨after, congrArg (character :: ·) shape⟩

/-- No piece but a quoted text goes beyond the end of its line. -/
theorem startingAt_line {character : Char} {rest : List Char}
    (closed : character = '\'' → '\'' ∈ rest) (more : List Char) :
    startingAt character (rest ++ '\n' :: more) = startingAt character rest := by
  have comment := @takeWhile_stop (fun character => decide (character ≠ '\n')) '\n' (by simp)
  have word := @takeWhile_stop isWordPart '\n' (by decide)
  unfold startingAt
  by_cases quote : character = '\''
  · obtain ⟨before, after, shape⟩ := List.append_of_mem (closed quote)
    have content : rest.takeWhile (· ≠ '\'') = before.takeWhile (· ≠ '\'') := by
      rw [shape, takeWhile_stop (by simp)]
    have shorter : (rest.takeWhile (· ≠ '\'')).length < rest.length := by
      have bound := (List.takeWhile_sublist (l := before) (· ≠ '\'')).length_le
      rw [content, shape, List.length_append, List.length_cons]
      omega
    have longer : (rest.takeWhile (· ≠ '\'')).length < (rest ++ '\n' :: more).length := by
      rw [List.length_append]
      omega
    simp only [content_eq (closed quote), if_pos shorter, if_pos longer, comment, word,
      symbolAt?_line, ← List.cons_append, numberAt_line]
  · simp only [if_neg quote, comment, word, symbolAt?_line, ← List.cons_append, numberAt_line]

/-- A number covers its first digit and some of what follows. -/
theorem numberAt_cons {digit : Char} (isDigit : digit.isDigit = true) (rest : List Char) :
    ∃ covered after, rest = covered ++ after ∧ numberAt (digit :: rest) = digit :: covered := by
  have shape : rest = rest.takeWhile Char.isDigit ++ rest.dropWhile Char.isDigit :=
    List.takeWhile_append_dropWhile.symm
  unfold numberAt
  rw [List.takeWhile_cons_of_pos isDigit]
  generalize rest.takeWhile Char.isDigit = digits at shape
  generalize rest.dropWhile Char.isDigit = after at shape
  subst shape
  dsimp only
  rw [List.length_cons, List.drop_succ_cons, List.drop_left]
  split
  · next fraction =>
      have parts : fraction = fraction.takeWhile Char.isDigit ++ fraction.dropWhile Char.isDigit :=
        List.takeWhile_append_dropWhile.symm
      split
      · exact ⟨digits, _, rfl, rfl⟩
      · next found =>
          refine ⟨digits ++ '.' :: fraction.takeWhile Char.isDigit, fraction.dropWhile Char.isDigit,
            ?_, rfl⟩
          rw [List.append_assoc, List.cons_append, ← parts]
  · exact ⟨digits, _, rfl, rfl⟩

/-- A symbol that is written out at the start of a text. -/
def SymbolStarts (character : Char) (rest : List Char) (kind : Token.Kind) : Prop :=
  kind.IsWritten ∧ ∃ covered after, rest = covered ++ after ∧
    kind.spelling.toList = character :: covered

/-- A symbol of one character starts with it. -/
theorem SymbolStarts.single {character : Char} {rest : List Char} {kind : Token.Kind}
    (written : kind.IsWritten) (spelled : kind.spelling.toList = [character]) :
    SymbolStarts character rest kind :=
  ⟨written, [], rest, rfl, spelled⟩

/-- A symbol of two characters starts there if both are written. -/
theorem SymbolStarts.longer {character next : Char} {rest : List Char} {long short : Token.Kind}
    (written : long.IsWritten) (spelled : long.spelling.toList = [character, next])
    (otherwise : SymbolStarts character rest short) :
    SymbolStarts character rest (if rest.head? = some next then long else short) := by
  split
  · next follows =>
      obtain ⟨after, shape⟩ := List.head?_eq_some_iff.mp follows
      exact ⟨written, [next], after, shape, spelled⟩
  · exact otherwise

/-- A symbol that is found is written out. -/
theorem symbolAt?_starts {character : Char} {rest : List Char} {kind : Token.Kind}
    (found : symbolAt? character rest = some kind) : SymbolStarts character rest kind := by
  unfold symbolAt? at found
  split at found <;> cases found
  case h_17 =>
    exact .longer (by decide) rfl (.longer (by decide) rfl (.single (by decide) rfl))
  case h_15 | h_16 | h_18 | h_19 => exact .longer (by decide) rfl (.single (by decide) rfl)
  all_goals exact .single (by decide) rfl

/-- The pieces that can start at a character. -/
theorem startingAt_cases {motive : Piece → Prop} (character : Char) (rest : List Char)
    (lineEnd : character = '\n' → motive lineEnd) (space : character = ' ' → motive space)
    (tab : character = '\t' → motive tab)
    (comment : character = '#' → motive (comment (rest.takeWhile (· ≠ '\n'))))
    (quoted : character = '\'' → (rest.takeWhile (· ≠ '\'')).length < rest.length →
      motive (quoted (rest.takeWhile (· ≠ '\''))))
    (unclosed : character = '\'' → motive (unclosed (rest.takeWhile (· ≠ '\''))))
    (number : character.isDigit = true → motive (number (numberAt (character :: rest))))
    (word : isWordStart character = true → motive (word (character :: rest.takeWhile isWordPart)))
    (symbol : ∀ kind, symbolAt? character rest = some kind → motive (symbol kind))
    (stray : motive (stray character)) : motive (startingAt character rest) := by
  unfold startingAt
  split
  · next same => exact lineEnd same
  split
  · next same => exact space same
  split
  · next same => exact tab same
  split
  · next same => exact comment same
  split
  · next same =>
      dsimp only
      split
      · next shorter => exact quoted same shorter
      · exact unclosed same
  split
  · next digit => exact number digit
  split
  · next begins => exact word begins
  split
  · next kind found => exact symbol kind found
  · exact stray

/-- A piece covers the start of the text that it is cut from. -/
theorem text_startingAt (character : Char) (rest : List Char) :
    ∃ covered after, rest = covered ++ after ∧
      (startingAt character rest).text = character :: covered := by
  have parts (test : Char → Bool) : rest = rest.takeWhile test ++ rest.dropWhile test :=
    List.takeWhile_append_dropWhile.symm
  apply startingAt_cases (motive := fun piece => ∃ covered after, rest = covered ++ after ∧
    piece.text = character :: covered) character rest
  case lineEnd | space | tab => exact fun same => ⟨[], rest, rfl, by rw [same]; rfl⟩
  case comment | unclosed => exact fun same => ⟨_, _, parts _, by rw [same]; rfl⟩
  case quoted =>
    intro same shorter
    obtain ⟨after, shape⟩ := exists_closing shorter
    refine ⟨rest.takeWhile (· ≠ '\'') ++ ['\''], after, ?_, by rw [same]; rfl⟩
    rw [List.append_assoc]
    exact shape
  case number => exact fun digit => numberAt_cons digit rest
  case word => exact fun _ => ⟨_, _, parts isWordPart, rfl⟩
  case symbol => exact fun kind found => (symbolAt?_starts found).2
  case stray => exact ⟨[], rest, rfl, rfl⟩

/-- What holds of a text if it holds of what is left after its first piece holds of all texts. -/
theorem cut_induction {motive : List Char → Prop} (empty : motive [])
    (step : ∀ character covered after,
      (startingAt character (covered ++ after)).text = character :: covered →
      cut 0 (character :: (covered ++ after)) =
        startingAt character (covered ++ after) :: cut 0 after →
      motive after → motive (character :: (covered ++ after))) (text : List Char) :
    motive text := by
  induction size : text.length using Nat.strongRecOn generalizing text with
  | _ _ ih =>
      cases text with
      | nil => exact empty
      | cons character rest =>
          obtain ⟨covered, after, rfl, text⟩ := text_startingAt character rest
          refine step character covered after text (cut_of_startingAt rfl text) ?_
          refine ih after.length ?_ after rfl
          rw [← size, List.length_cons, List.length_append]
          omega

/-- A quote that is not closed up to the end of a line is not closed at all if nothing follows. -/
theorem startingAt_unclosed {rest : List Char} (absent : '\'' ∉ rest) :
    startingAt '\'' rest = unclosed rest := by
  have whole : rest.takeWhile (· ≠ '\'') = rest := by
    have passes : ∀ character ∈ rest, decide (character ≠ '\'') = true := by
      intro character member
      refine decide_eq_true ?_
      rintro rfl
      exact absent member
    simpa using @takeWhile_eq _ rest [] passes (by simp)
  change (if (rest.takeWhile (· ≠ '\'')).length < rest.length then
    quoted (rest.takeWhile (· ≠ '\'')) else unclosed (rest.takeWhile (· ≠ '\''))) = _
  rw [whole, if_neg (Nat.lt_irrefl _)]

/-- What follows the line of a piece does not change the piece. -/
theorem cut_append_line {character : Char} {covered after : List Char}
    (text : (startingAt character (covered ++ after)).text = character :: covered)
    (closed : character = '\'' → '\'' ∈ covered ++ after) (more : List Char) :
    cut 0 (character :: (covered ++ after) ++ '\n' :: more) =
      startingAt character (covered ++ after) :: cut 0 (after ++ '\n' :: more) := by
  have starts := startingAt_line closed more
  rw [List.append_assoc] at starts
  rw [List.cons_append, List.append_assoc]
  exact cut_of_startingAt starts text

/-- A text is cut at each line end that no quoted text covers. -/
theorem cut_line (text : List Char) (closed : ∀ content, unclosed content ∉ cut 0 (text ++ ['\n']))
    (more : List Char) : cut 0 (text ++ '\n' :: more) = cut 0 text ++ lineEnd :: cut 0 more := by
  induction text using cut_induction with
  | empty => rfl
  | step character covered after text whole ih =>
      have quoted : character = '\'' → '\'' ∈ covered ++ after := by
        rintro rfl
        refine Decidable.byContradiction fun absent => ?_
        refine closed (covered ++ after ++ ['\n']) (List.mem_cons.mpr (.inl ?_))
        exact (startingAt_unclosed (by simpa using absent)).symm
      have cuts := cut_append_line text quoted
      have later : ∀ content, unclosed content ∉ cut 0 (after ++ ['\n']) := by
        intro content member
        refine closed content ?_
        rw [cuts []]
        exact List.mem_cons_of_mem _ member
      rw [cuts more, whole, ih later, List.cons_append]

/-- A piece as it is cut from a text: its tokens are written out, and a comment ends with its line. -/
structure IsProper (piece : Piece) : Prop where
  written : ∀ line token, .token token ∈ piece.marks line → token.kind.IsWritten
  short : ∀ body, piece = comment body → '\n' ∉ body

/-- A word is a keyword or a name, which are both written. -/
theorem keyword?_written (word : String) :
    ((Token.Kind.keyword? word).getD .identifier).IsWritten := by
  cases found : Token.Kind.keyword? word with
  | none => decide
  | some kind =>
      have member := List.mem_of_find?_eq_some found
      have written : ∀ kind ∈ Token.Kind.keywords, kind.IsWritten := by decide
      exact written kind member

/-- A piece is proper where it starts. -/
theorem startingAt_proper (character : Char) (rest : List Char) :
    (startingAt character rest).IsProper := by
  have bare {piece : Piece} (silent : ∀ line token, .token token ∉ piece.marks line)
      (other : ∀ body, piece ≠ comment body) : piece.IsProper :=
    ⟨fun line token member => absurd member (silent line token),
      fun body same => absurd same (other body)⟩
  have single {piece : Piece} {token : Nat → Token}
      (marks : ∀ line, piece.marks line = [.token (token line)])
      (written : ∀ line, (token line).kind.IsWritten) (other : ∀ body, piece ≠ comment body) :
      piece.IsProper := by
    refine ⟨fun line read member => ?_, fun body same => absurd same (other body)⟩
    rw [marks] at member
    cases List.mem_singleton.mp member
    exact written line
  apply startingAt_cases character rest
  case lineEnd | space | tab | unclosed => exact fun _ => bare (by simp [marks]) (by simp)
  case stray => exact bare (by simp [marks]) (by simp)
  case comment =>
    refine fun _ => ⟨fun line token member => absurd member List.not_mem_nil, ?_⟩
    rintro body ⟨⟩ member
    simpa using List.mem_takeWhile_imp member
  case quoted =>
    exact fun _ _ => single (fun _ => rfl) (fun _ => (by decide : Token.Kind.text.IsWritten))
      (by simp)
  case number =>
    exact fun _ => single (fun _ => rfl) (fun _ => (by decide : Token.Kind.number.IsWritten))
      (by simp)
  case word => exact fun _ => single (fun _ => rfl) (fun _ => keyword?_written _) (by simp)
  case symbol =>
    exact fun kind found => single (fun _ => rfl) (fun _ => (symbolAt?_starts found).1) (by simp)

/-- At a number sign there is a comment as long as its line goes on. -/
theorem startingAt_comment {body after : List Char} (short : '\n' ∉ body)
    (ends : ∀ next ∈ after.head?, next = '\n') : startingAt '#' (body ++ after) = comment body := by
  show comment ((body ++ after).takeWhile (· ≠ '\n')) = comment body
  rw [takeWhile_eq]
  · intro character member
    apply decide_eq_true
    rintro rfl
    exact short member
  · intro next member
    rw [ends next member]
    rfl

/-- A comment covers no line end. -/
theorem comment_short {covered after : List Char}
    (text : (startingAt '#' (covered ++ after)).text = '#' :: covered) : '\n' ∉ covered := by
  have body : covered = (covered ++ after).takeWhile (· ≠ '\n') := (List.cons.inj text).2.symm
  rw [body]
  exact fun member => by simpa using List.mem_takeWhile_imp member

/-- A comment is followed by the end of its line. -/
theorem comment_ends {character : Char} {covered after body : List Char}
    (starts : startingAt character (covered ++ after) = comment body)
    (text : (startingAt character (covered ++ after)).text = character :: covered) :
    ∀ next ∈ after.head?, next = '\n' := by
  have whole : ∀ body, startingAt character (covered ++ after) = comment body →
      body = (covered ++ after).takeWhile (· ≠ '\n') := by
    apply startingAt_cases (motive := fun piece => ∀ body, piece = comment body →
      body = (covered ++ after).takeWhile (· ≠ '\n')) <;> simp
  have same : covered = body := by
    rw [starts] at text
    exact (List.cons.inj text).2.symm
  have stops := whole body starts
  rw [same] at stops
  cases after with
  | nil => exact fun next member => by cases member
  | cons character after =>
      rintro next ⟨⟩
      refine Decidable.byContradiction fun other => ?_
      have passes : ∀ next ∈ body, decide (next ≠ '\n') = true := by
        intro next member
        rw [stops] at member
        simpa using List.mem_takeWhile_imp member
      rw [List.takeWhile_append_of_pos passes, List.takeWhile_cons, if_pos (decide_eq_true other)]
        at stops
      have lengths := congrArg List.length stops
      simp at lengths

/-- The pieces of a text are proper, by induction over the pieces. -/
theorem cut_proper (text : List Char) : ∀ piece ∈ cut 0 text, piece.IsProper := by
  induction text using cut_induction with
  | empty => exact fun piece member => by cases member
  | step character covered after _ whole ih =>
      rw [whole]
      exact List.forall_mem_cons.mpr ⟨startingAt_proper character _, ih⟩

/-- Nothing of a text is lost between its pieces. -/
theorem cut_text (text : List Char) : (cut 0 text).flatMap Piece.text = text := by
  induction text using cut_induction with
  | empty => rfl
  | step character covered after text whole ih =>
      rw [whole, List.flatMap_cons, ih, text, List.cons_append]

end Piece

end OffsideScript
