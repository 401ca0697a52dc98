import OffsideScript.Proofs.Token.Passing

namespace OffsideScript

/-- What a character of a text belongs to. -/
inductive Zone where
  | code
  | comment
  | quote
  deriving DecidableEq, Repr

/-- The zone of what follows a character. -/
def Zone.next (zone : Zone) (character : Char) : Zone :=
  match zone with
  | code => if character = '#' then comment else if character = '\'' then quote else code
  | comment => if character = '\n' then code else comment
  | quote => if character = '\'' then code else quote

/-- A line with the width of the blanks before its content. -/
structure ContentLine where
  line : Nat
  width : Nat
  deriving DecidableEq, Repr

namespace Text

/-- The zone behind a text. -/
def zone (text : List Char) : Zone :=
  text.foldl Zone.next .code

/-- The width of the blanks before the content of the first line, if this line has content. -/
def indentation : List Char → Option Nat
  | [] => none
  | character :: rest =>
      if character = ' ' ∨ character = '\t' then
        (indentation rest).map ((if character = '\t' then 4 else 1) + ·)
      else if character = '\n' ∨ character = '#' then none
      else some 0

/-- The line starts outside of quotes and has content behind blanks of a width. The blanks before the
first line of a text do not count. -/
def HasContent (text : List Char) (entry : ContentLine) : Prop :=
  ∃ before after, text = before ++ after ∧ EndsLine before ∧ zone before ≠ .quote ∧
    entry.line = before.count '\n' + 1 ∧
    ∃ blank, indentation after = some blank ∧ entry.width = if before = [] then 0 else blank

/-- The lines with content behind the line ends of a text. -/
def laterContents (zone : Zone) (line : Nat) : List Char → List ContentLine
  | [] => []
  | character :: rest =>
      if character = '\n' then
        (if zone = .quote then [] else ((indentation rest).map (ContentLine.mk (line + 1))).toList) ++
          laterContents (zone.next character) (line + 1) rest
      else
        laterContents (zone.next character) line rest

/-- The lines of a text with content, in order. -/
def contents (text : List Char) : List ContentLine :=
  ((indentation text).map fun _ => ⟨1, 0⟩).toList ++ laterContents .code 1 text

/-- Content at the start of a line behind some line end of a text. -/
def LaterContent (zone : Zone) (line : Nat) (text : List Char) (entry : ContentLine) : Prop :=
  ∃ before after, text = before ++ after ∧ before.getLast? = some '\n' ∧
    before.foldl Zone.next zone ≠ .quote ∧ entry.line = before.count '\n' + line ∧
    indentation after = some entry.width

/-- An empty text has no later line. -/
theorem laterContent_nil (zone : Zone) (line : Nat) (entry : ContentLine) :
    ¬LaterContent zone line [] entry := by
  rintro ⟨before, after, whole, ends, _⟩
  rw [(List.append_eq_nil_iff.mp whole.symm).1] at ends
  cases ends

/-- A later line starts behind the first character, or further on. -/
theorem laterContent_cons {zone : Zone} {line : Nat} {character : Char} {rest : List Char}
    {entry : ContentLine} :
    LaterContent zone line (character :: rest) entry ↔
      (character = '\n' ∧ zone ≠ .quote ∧ entry.line = line + 1 ∧
        indentation rest = some entry.width) ∨
      LaterContent (zone.next character) (line + if character = '\n' then 1 else 0) rest entry := by
  have outside : zone.next '\n' ≠ .quote ↔ zone ≠ .quote := by cases zone <;> decide
  constructor
  · rintro ⟨before, after, whole, ends, unquoted, count, width⟩
    cases before with
    | nil => cases ends
    | cons first before =>
        obtain ⟨rfl, rfl⟩ := List.cons.inj whole
        cases before with
        | nil =>
            obtain rfl : character = '\n' := by simpa using ends
            rw [List.count_singleton_self, Nat.add_comm] at count
            exact .inl ⟨rfl, outside.mp unquoted, count, width⟩
        | cons second before =>
            refine .inr ⟨second :: before, after, rfl, ends, unquoted, ?_, width⟩
            rw [count, List.count_cons]
            simp only [beq_iff_eq]
            omega
  · rintro (⟨rfl, unquoted, count, width⟩ | ⟨before, after, rfl, ends, unquoted, count, width⟩)
    · exact ⟨['\n'], rest, rfl, rfl, outside.mpr unquoted, by simp [count, Nat.add_comm], width⟩
    · refine ⟨character :: before, after, rfl, ?_, unquoted, ?_, width⟩
      · rw [List.getLast?_cons, ends]
        rfl
      · rw [count, List.count_cons]
        simp only [beq_iff_eq]
        omega

/-- A line with content is listed if it has a width. -/
theorem mem_entry {width : Option Nat} {line : Nat} {entry : ContentLine} :
    entry ∈ (width.map (ContentLine.mk line)).toList ↔
      entry.line = line ∧ width = some entry.width := by
  obtain ⟨number, blank⟩ := entry
  cases width <;> simp [eq_comm]

/-- The later lines with content are listed. -/
theorem mem_laterContents {zone : Zone} {line : Nat} {text : List Char} {entry : ContentLine} :
    entry ∈ laterContents zone line text ↔ LaterContent zone line text entry := by
  induction text generalizing zone line with
  | nil => simpa [laterContents] using laterContent_nil zone line entry
  | cons character rest ih =>
      rw [laterContent_cons, laterContents]
      by_cases ends : character = '\n'
      · by_cases quoted : zone = .quote
        · simp [ends, quoted, ih]
        · simp only [ends, quoted, reduceIte, List.mem_append, mem_entry, ih, ne_eq, true_and,
            not_false_eq_true]
      · simp [ends, ih]

/-- The lines with content are listed. -/
theorem mem_contents {text : List Char} {entry : ContentLine} :
    entry ∈ contents text ↔ HasContent text entry := by
  unfold contents
  rw [List.mem_append, mem_laterContents]
  constructor
  · rintro (first | ⟨before, after, rfl, ends, unquoted, count, width⟩)
    · obtain ⟨blank, found, rfl⟩ := Option.map_eq_some_iff.mp (Option.mem_toList.mp first)
      exact ⟨[], text, rfl, by simp [EndsLine], by simp [zone], rfl, blank, found, rfl⟩
    · refine ⟨before, after, rfl, by simp [EndsLine, ends], unquoted, count, entry.width, width, ?_⟩
      rw [if_neg]
      rintro rfl
      cases ends
  · rintro ⟨before, after, rfl, ends, unquoted, count, blank, found, width⟩
    cases last : before.getLast? with
    | none =>
        obtain rfl := List.getLast?_eq_none_iff.mp last
        left
        obtain ⟨line, size⟩ := entry
        simp_all
    | some character =>
        obtain rfl := ends character last
        refine .inr ⟨before, after, rfl, last, unquoted, count, ?_⟩
        rw [width, if_neg]
        · exact found
        · rintro rfl
          cases last

/-- The lines are listed from the first one on. -/
theorem laterContents_ordered (zone : Zone) (line : Nat) (text : List Char) :
    (∀ entry ∈ laterContents zone line text, line < entry.line) ∧
      (laterContents zone line text).Pairwise (·.line < ·.line) := by
  induction text generalizing zone line with
  | nil => simp [laterContents]
  | cons character rest ih =>
      unfold laterContents
      split
      · obtain ⟨later, ordered⟩ := ih (zone.next character) (line + 1)
        have further : ∀ entry ∈ laterContents (zone.next character) (line + 1) rest,
            line < entry.line := fun entry member => Nat.lt_of_succ_lt (later entry member)
        by_cases quoted : zone = .quote
        · simp only [quoted, reduceIte, List.nil_append] at further ordered ⊢
          exact ⟨further, ordered⟩
        · simp only [quoted, reduceIte]
          cases indentation rest with
          | none => exact ⟨further, ordered⟩
          | some width =>
              exact ⟨List.forall_mem_cons.mpr ⟨Nat.lt_succ_self line, further⟩, .cons later ordered⟩
      · exact ih (zone.next character) line

/-- The lines are in order. -/
theorem contents_ordered (text : List Char) : (contents text).Pairwise (·.line < ·.line) := by
  obtain ⟨later, ordered⟩ := laterContents_ordered .code 1 text
  unfold contents
  cases indentation text with
  | none => exact ordered
  | some width => exact .cons later ordered

end Text

namespace Piece

/-- The lines on which reading compares a column with the open blocks, from some pieces on. -/
def starts (line : Nat) (column : Option Nat) : List Piece → List ContentLine
  | [] => []
  | lineEnd :: rest => starts (line + 1) (some 0) rest
  | space :: rest => starts line (column.map (· + 1)) rest
  | tab :: rest => starts line (column.map (· + tabWidth)) rest
  | comment _ :: rest => starts line none rest
  | piece :: rest =>
      (column.map (ContentLine.mk line)).toList ++ starts (line + piece.lineEnds) none rest

/-- A piece with content ends the search for a column on its line. -/
theorem starts_solid {piece : Piece} (solid : piece.IsSolid) (line : Nat) (column : Option Nat)
    (rest : List Piece) :
    starts line column (piece :: rest) =
      (column.map (ContentLine.mk line)).toList ++ starts (line + piece.lineEnds) none rest := by
  cases piece with
  | lineEnd | space | tab | comment => exact solid.elim
  | _ => rfl

/-- Induction over pieces in the order in which they are read. A line end starts a line, a blank or a
comment only moves the column, and any other piece is compared with the open blocks. -/
theorem reading_induction {motive : Nat → Option Nat → List Piece → Prop}
    (finish : ∀ line column, motive line column [])
    (lineEnd : ∀ line column rest, (∀ piece ∈ rest, piece.IsProper) →
      motive (line + 1) (some 0) rest → motive line column (lineEnd :: rest))
    (silent : ∀ piece line column shifted rest, piece.lineEnds = 0 → (column = none → shifted = none) →
      (∀ margin : Margin, margin.read line column (piece :: rest) = margin.read line shifted rest) →
      starts line column (piece :: rest) = starts line shifted rest →
      motive line shifted rest → motive line column (piece :: rest))
    (solid : ∀ piece line column rest, piece.IsSolid → piece.IsProper →
      (∀ piece ∈ rest, piece.IsProper) → motive (line + piece.lineEnds) none rest →
      motive line column (piece :: rest))
    {pieces : List Piece} (proper : ∀ piece ∈ pieces, piece.IsProper) (line : Nat)
    (column : Option Nat) : motive line column pieces := by
  induction pieces generalizing line column with
  | nil => exact finish line column
  | cons piece rest ih =>
      obtain ⟨here, others⟩ := List.forall_mem_cons.mp proper
      have later := ih others
      cases piece with
      | lineEnd => exact lineEnd line column rest others (later _ _)
      | space => exact silent _ line column _ rest rfl (by rintro rfl; rfl) (fun _ => rfl) rfl (later _ _)
      | tab => exact silent _ line column _ rest rfl (by rintro rfl; rfl) (fun _ => rfl) rfl (later _ _)
      | comment body =>
          have short : (comment body).lineEnds = 0 := by
            simpa [lineEnds, text, List.count_eq_zero] using here.short body rfl
          exact silent _ line column none rest short (fun _ => rfl) (fun _ => rfl) rfl (later _ _)
      | _ => exact solid _ line column rest trivial here others (later _ _)

end Piece

namespace Text

/-- Characters that end no line and start neither a comment nor a quote. -/
def IsPlain (text : List Char) : Prop :=
  ∀ character ∈ text, character ∉ ['\n', '#', '\'']

/-- Plain characters end no line. -/
theorem IsPlain.short {plain : List Char} (isPlain : IsPlain plain) : '\n' ∉ plain :=
  fun member => isPlain _ member List.mem_cons_self

/-- Plain characters stay in code. -/
theorem foldl_plain {plain : List Char} (isPlain : IsPlain plain) :
    plain.foldl Zone.next .code = .code := by
  induction plain with
  | nil => rfl
  | cons character plain ih =>
      obtain ⟨here, others⟩ := List.forall_mem_cons.mp isPlain
      simp only [List.mem_cons, List.not_mem_nil, or_false, not_or] at here
      rw [List.foldl_cons, Zone.next, if_neg here.2.1, if_neg here.2.2]
      exact ih others

/-- Other characters than a line end stay in a comment. -/
theorem foldl_comment {body : List Char} (short : '\n' ∉ body) :
    body.foldl Zone.next .comment = .comment := by
  induction body with
  | nil => rfl
  | cons character body ih =>
      simp only [List.mem_cons, not_or] at short
      rw [List.foldl_cons, Zone.next, if_neg (Ne.symm short.1)]
      exact ih short.2

/-- Other characters than a quotation mark stay in a quote. -/
theorem foldl_quote {content : List Char} (still : '\'' ∉ content) :
    content.foldl Zone.next .quote = .quote := by
  induction content with
  | nil => rfl
  | cons character content ih =>
      simp only [List.mem_cons, not_or] at still
      rw [List.foldl_cons, Zone.next, if_neg (Ne.symm still.1)]
      exact ih still.2

/-- No line starts within a line. -/
theorem laterContents_short {part : List Char} (short : '\n' ∉ part) (zone : Zone) (line : Nat)
    (after : List Char) :
    laterContents zone line (part ++ after) = laterContents (part.foldl Zone.next zone) line after := by
  induction part generalizing zone with
  | nil => rfl
  | cons character part ih =>
      simp only [List.mem_cons, not_or] at short
      rw [List.cons_append, laterContents, if_neg (Ne.symm short.1), ih short.2, List.foldl_cons]

/-- No line starts with content inside of a quote. -/
theorem laterContents_quote {content : List Char} (still : '\'' ∉ content) (line : Nat)
    (after : List Char) :
    laterContents .quote line (content ++ after) =
      laterContents .quote (line + content.count '\n') after := by
  induction content generalizing line with
  | nil => rfl
  | cons character content ih =>
      simp only [List.mem_cons, not_or] at still
      by_cases ends : character = '\n'
      · simp [laterContents, Zone.next, ends, ih still.2, Nat.add_comm, Nat.add_left_comm]
      · simp [laterContents, Zone.next, ends, Ne.symm still.1, ih still.2]

end Text

namespace Piece

/-- A number consists of digits and points. -/
theorem numberAt_chars {character : Char} {text : List Char} (member : character ∈ numberAt text) :
    character.isDigit = true ∨ character = '.' := by
  have digits {text : List Char} (member : character ∈ text.takeWhile Char.isDigit) :
      character.isDigit = true := List.mem_takeWhile_imp member
  unfold numberAt at member
  dsimp only at member
  split at member
  · split at member
    · exact .inl (digits member)
    · rcases List.mem_append.mp member with whole | fraction
      · exact .inl (digits whole)
      · rcases List.mem_cons.mp fraction with point | behind
        · exact .inr point
        · exact .inl (digits behind)
  · exact .inl (digits member)

/-- Symbols and keywords are plain. -/
theorem spelling_plain (kind : Token.Kind) : Text.IsPlain kind.spelling.toList := by
  have all : kind.spelling.toList.all (· ∉ ['\n', '#', '\'']) = true := by
    cases kind <;> rfl
  simpa [Text.IsPlain] using all

/-- A character that is no blank, ends no line and starts neither a comment nor a quote starts a piece of
such characters. -/
theorem startingAt_plain {character : Char} (other : character ∉ ['\n', ' ', '\t', '#', '\''])
    (rest : List Char) :
    (startingAt character rest).IsSolid ∧ Text.IsPlain (startingAt character rest).text := by
  simp only [List.mem_cons, List.not_mem_nil, or_false, not_or] at other
  have here : character ∉ ['\n', '#', '\''] := by simp [other]
  apply startingAt_cases (motive := fun piece => piece.IsSolid ∧ Text.IsPlain piece.text)
  case lineEnd => exact fun same => absurd same other.1
  case space => exact fun same => absurd same other.2.1
  case tab => exact fun same => absurd same other.2.2.1
  case comment => exact fun same => absurd same other.2.2.2.1
  case quoted => exact fun same => absurd same other.2.2.2.2
  case unclosed => exact fun same => absurd same other.2.2.2.2
  case number =>
    refine fun _ => ⟨trivial, fun next member found => ?_⟩
    rcases numberAt_chars member with digit | rfl
    · simp only [List.mem_cons, List.not_mem_nil, or_false] at found
      rcases found with rfl | rfl | rfl <;> exact absurd digit (by decide)
    · exact absurd found (by decide)
  case word =>
    refine fun _ => ⟨trivial, List.forall_mem_cons.mpr ⟨here, fun next member found => ?_⟩⟩
    have part : isWordPart next = true := List.mem_takeWhile_imp member
    simp only [List.mem_cons, List.not_mem_nil, or_false] at found
    rcases found with rfl | rfl | rfl <;> exact absurd part (by decide)
  case symbol => exact fun kind _ => ⟨trivial, spelling_plain kind⟩
  case stray => exact ⟨trivial, by simpa [Text.IsPlain, text] using here⟩

/-- A quote is closed, or it goes on to the end of the text. -/
theorem startingAt_quote (rest : List Char) :
    ∃ content, '\'' ∉ content ∧
      ((startingAt '\'' rest = quoted content ∧ ∃ after, rest = content ++ '\'' :: after) ∨
        (startingAt '\'' rest = unclosed content ∧ rest = content)) := by
  refine ⟨rest.takeWhile (· ≠ '\''), fun member => by simpa using List.mem_takeWhile_imp member, ?_⟩
  have starts : startingAt '\'' rest =
      if (rest.takeWhile (· ≠ '\'')).length < rest.length then quoted (rest.takeWhile (· ≠ '\''))
      else unclosed (rest.takeWhile (· ≠ '\'')) := rfl
  by_cases shorter : (rest.takeWhile (· ≠ '\'')).length < rest.length
  · rw [if_pos shorter] at starts
    exact .inl ⟨starts, exists_closing shorter⟩
  · rw [if_neg shorter] at starts
    have whole := (List.takeWhile_sublist (· ≠ '\'')).eq_of_length_le (Nat.le_of_not_lt shorter)
    exact .inr ⟨starts, whole.symm⟩

section Starts

variable {character : Char} {covered after : List Char}
  (text : (startingAt character (covered ++ after)).text = character :: covered)
include text

/-- Behind a piece the text goes on in code. -/
theorem laterContents_piece (other : character ∉ ['\n', ' ', '\t', '#']) (line : Nat) :
    Text.laterContents .code line (character :: (covered ++ after)) =
      Text.laterContents .code (line + (startingAt character (covered ++ after)).lineEnds) after := by
  unfold lineEnds
  rw [text]
  by_cases quote : character = '\''
  · subst quote
    change Text.laterContents .quote line (covered ++ after) = _
    obtain ⟨content, unquoted, ⟨closed, rest, _⟩ | ⟨unclosed, whole⟩⟩ :=
      startingAt_quote (covered ++ after)
    · rw [closed] at text
      obtain rfl : content ++ ['\''] = covered := (List.cons.inj text).2
      rw [List.append_assoc, Text.laterContents_quote unquoted]
      simp [Text.laterContents, Zone.next]
    · rw [unclosed] at text
      obtain rfl : content = covered := (List.cons.inj text).2
      obtain rfl : after = [] := List.append_right_eq_self.mp whole
      rw [Text.laterContents_quote unquoted]
      rfl
  · have plain : character ∉ ['\n', ' ', '\t', '#', '\''] := by simpa [quote] using other
    obtain ⟨_, isPlain⟩ := startingAt_plain plain (covered ++ after)
    rw [text] at isPlain
    rw [List.count_eq_zero.mpr isPlain.short, Nat.add_zero, ← List.cons_append,
      Text.laterContents_short isPlain.short, Text.foldl_plain isPlain]

/-- A comment goes on to the end of its line. -/
theorem laterContents_comment (starts : character = '#') (line : Nat) :
    Text.laterContents .code line (character :: (covered ++ after)) =
      Text.laterContents .code line after := by
  subst starts
  have short := comment_short text
  change Text.laterContents .comment line (covered ++ after) = _
  rw [Text.laterContents_short short, Text.foldl_comment short]
  cases after with
  | nil => rfl
  | cons next after =>
      obtain rfl := comment_ends rfl text next rfl
      rfl

end Starts

/-- A piece that is neither blank nor a comment nor a line end has content. -/
theorem startingAt_solid {character : Char} (other : character ∉ ['\n', ' ', '\t', '#'])
    (rest : List Char) : (startingAt character rest).IsSolid := by
  by_cases quote : character = '\''
  · subst quote
    obtain ⟨content, _, ⟨closed, _⟩ | ⟨unclosed, _⟩⟩ := startingAt_quote rest
    · rw [closed]
      trivial
    · rw [unclosed]
      trivial
  · exact (startingAt_plain (by simpa [quote] using other) rest).1

/-- Reading compares columns on the lines that have content. -/
theorem starts_eq (text : List Char) (line : Nat) (column : Option Nat) :
    starts line column (cut 0 text) =
      (column.bind fun start => (Text.indentation text).map fun blank =>
        ContentLine.mk line (start + blank)).toList ++ Text.laterContents .code line text := by
  induction text using cut_induction generalizing line column with
  | empty => cases column <;> rfl
  | step character covered after text whole ih =>
      have single {piece : Piece} (same : startingAt character (covered ++ after) = piece)
          (short : piece.text = [character]) : covered = [] := by
        rw [same, short] at text
        exact (List.cons.inj text).2.symm
      rw [whole]
      by_cases solid : character ∉ ['\n', ' ', '\t', '#']
      · have content : Text.indentation (character :: (covered ++ after)) = some 0 := by
          simp only [List.mem_cons, List.not_mem_nil, or_false, not_or] at solid
          simp [Text.indentation, solid]
        rw [starts_solid (startingAt_solid solid _), ih, content, laterContents_piece text solid]
        cases column <;> rfl
      · simp only [List.mem_cons, List.not_mem_nil, or_false, not_not] at solid
        rcases solid with rfl | rfl | rfl | rfl
        · obtain rfl := single rfl rfl
          change starts (line + 1) (some 0) (cut 0 after) = _
          rw [ih]
          cases column <;> simp [Text.indentation, Text.laterContents, Zone.next]
        · obtain rfl := single rfl rfl
          change starts line (column.map (· + 1)) (cut 0 after) = _
          rw [ih]
          cases column <;>
            simp [Text.indentation, Text.laterContents, Zone.next, Function.comp_def, Nat.add_assoc]
        · obtain rfl := single rfl rfl
          change starts line (column.map (· + 4)) (cut 0 after) = _
          rw [ih]
          cases column <;>
            simp [Text.indentation, Text.laterContents, Zone.next, Function.comp_def, Nat.add_assoc]
        · change starts line none (cut 0 after) = _
          rw [ih, laterContents_comment text rfl]
          cases column <;> rfl

end Piece

end OffsideScript
