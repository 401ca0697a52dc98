import OffsideScript.Proofs.Token.Cutting

namespace OffsideScript

/-- The token some lines further down. -/
def Token.lower (lines : Nat) (token : Token) : Token :=
  token.onLine (token.line + lines)

/-- A token further down has the same kind. -/
theorem Token.lower_kind (lines : Nat) (token : Token) : (token.lower lines).kind = token.kind := rfl

/-- The fault some lines further down. -/
def LexicalError.lower (lines : Nat) : LexicalError → LexicalError
  | unexpectedCharacter character line => unexpectedCharacter character (line + lines)
  | unterminatedText line => unterminatedText (line + lines)
  | unmatchedIndentation width line => unmatchedIndentation width (line + lines)

namespace Mark

/-- The mark some lines further down. -/
def lower (lines : Nat) : Mark → Mark
  | token read => token (read.lower lines)
  | fault error => fault (error.lower lines)

/-- The line of a mark. -/
def line : Mark → Nat
  | token read => read.line
  | fault error => error.line

/-- The mark of the end of a line. -/
def IsNewline (mark : Mark) : Prop :=
  ∃ token, mark = .token token ∧ token.kind = .newline

end Mark

/-- The marks of a piece further down are further down. -/
theorem Piece.marks_lower (piece : Piece) (line lines : Nat) :
    piece.marks (line + lines) = (piece.marks line).map (Mark.lower lines) := by
  cases piece <;> rfl

/-- A piece with content gives one mark on its line. -/
theorem Piece.IsSolid.marks_line {piece : Piece} (solid : piece.IsSolid) (line : Nat) :
    ∃ mark, piece.marks line = [mark] ∧ mark.line = line := by
  cases piece with
  | lineEnd | space | tab | comment => exact solid.elim
  | _ => exact ⟨_, rfl, rfl⟩

namespace Margin

/-- The marks at the start of a line further down are further down. -/
theorem enter_lower (margin : Margin) (column line lines : Nat) :
    margin.enter column (line + lines) =
      ((margin.enter column line).1, (margin.enter column line).2.map (Mark.lower lines)) := by
  unfold enter
  split
  · rfl
  · dsimp only
    rw [List.map_append, List.map_replicate]
    split <;> rfl

/-- Reading further down only changes lines. -/
theorem read_lower (margin : Margin) (line lines : Nat) (column : Option Nat)
    (pieces : List Piece) :
    margin.read (line + lines) column pieces =
      (margin.read line column pieces).map (Mark.lower lines) := by
  induction pieces generalizing margin line column with
  | nil =>
      change margin.finish (line + lines) = (margin.finish line).map (Mark.lower lines)
      unfold finish
      rw [List.map_append, List.map_cons, List.map_replicate]
      rfl
  | cons piece rest ih =>
      have solid (solid : piece.IsSolid) : margin.read (line + lines) column (piece :: rest) =
          (margin.read line column (piece :: rest)).map (Mark.lower lines) := by
        rw [read_solid solid, read_solid solid, Nat.add_right_comm line, ih, piece.marks_lower]
        cases column with
        | none => rw [List.map_append, List.map_append]; rfl
        | some column =>
            dsimp only
            rw [enter_lower, List.map_append, List.map_append]
      cases piece with
      | lineEnd =>
          have later := ih margin (line + 1) (some 0)
          rw [Nat.add_right_comm] at later
          exact congrArg (Mark.structural .newline (line + lines) :: ·) later
      | space => exact ih margin line _
      | tab => exact ih margin line _
      | comment body => exact ih margin line none
      | _ => exact solid trivial

/-- Closing blocks keeps the widths ordered. -/
theorem close_ordered {margin : Margin} (ordered : margin.Ordered) (column : Nat) :
    (margin.close column).Ordered := by
  induction margin with
  | nil => trivial
  | cons width enclosing ih =>
      unfold close
      split
      · exact ih ordered.2
      · exact ordered

/-- The start of a line keeps the widths ordered. -/
theorem enter_ordered {margin : Margin} (ordered : margin.Ordered) (column line : Nat) :
    (margin.enter column line).1.Ordered := by
  unfold enter
  split
  · next wider => exact ⟨wider, ordered⟩
  · exact close_ordered ordered column

/-- The marks that the start of a line gives. -/
theorem enter_marks (margin : Margin) (column line : Nat) :
    ∀ mark ∈ (margin.enter column line).2, mark.line = line ∧
      ∀ token, mark = .token token → token.kind ∉ [.newline, .endOfFile] := by
  have structural (kind : Token.Kind) (inside : kind ∉ [.newline, .endOfFile]) :
      (Mark.structural kind line).line = line ∧
        ∀ token, Mark.structural kind line = .token token → token.kind ∉ [.newline, .endOfFile] :=
    ⟨rfl, fun token same => by cases same; exact inside⟩
  intro mark member
  unfold enter at member
  split at member
  · rw [List.mem_singleton.mp member]
    exact structural .indent (by decide)
  · rcases List.mem_append.mp member with closes | faulty
    · rw [List.eq_of_mem_replicate closes]
      exact structural .dedent (by decide)
    · split at faulty
      · cases faulty
      · rw [List.mem_singleton.mp faulty]
        exact ⟨rfl, fun token same => by cases same⟩

/-- Reading some pieces gives marks and leads to another margin, line and column. -/
structure Passes (margin : Margin) (line : Nat) (column : Option Nat) (pieces : List Piece)
    (marks : List Mark) (after : Margin) (later : Nat) (shifted : Option Nat) : Prop where
  read : ∀ more, margin.read line column (pieces ++ more) = marks ++ after.read later shifted more
  lines : ∀ mark ∈ marks, line ≤ mark.line ∧ mark.line ≤ later
  ended : ∀ mark ∈ marks, mark.IsNewline → mark.line < later
  inside : ∀ token, .token token ∈ marks → token.kind ≠ .endOfFile
  ordered : margin.Ordered → after.Ordered
  plain : (∀ mark ∈ marks, mark.IsNewline) → after = margin

/-- Where nothing follows, the last line ends and all blocks close. -/
theorem Passes.whole {margin after : Margin} {line later : Nat} {column shifted : Option Nat}
    {pieces : List Piece} {marks : List Mark}
    (passes : Passes margin line column pieces marks after later shifted) :
    margin.read line column pieces = marks ++ after.finish later := by
  have reads := passes.read []
  rwa [List.append_nil] at reads

theorem Passes.nil (margin : Margin) (line : Nat) (column : Option Nat) :
    Passes margin line column [] [] margin line column :=
  ⟨fun _ => rfl, fun _ member => absurd member List.not_mem_nil,
    fun _ member => absurd member List.not_mem_nil,
    fun _ member => absurd member List.not_mem_nil, id, fun _ => rfl⟩

/-- Pieces are passed one after the other. -/
theorem Passes.cons {margin between after : Margin} {line middle later : Nat}
    {column next shifted : Option Nat} {piece : Piece} {pieces : List Piece}
    {early late : List Mark} (first : Passes margin line column [piece] early between middle next)
    (rest : Passes between middle next pieces late after later shifted)
    (ahead : line ≤ middle) (further : middle ≤ later) :
    Passes margin line column (piece :: pieces) (early ++ late) after later shifted := by
  constructor
  · intro more
    have whole := first.read (pieces ++ more)
    rw [rest.read] at whole
    rw [List.append_assoc]
    exact whole
  · intro mark member
    rcases List.mem_append.mp member with here | there
    · have bounds := first.lines mark here
      omega
    · have bounds := rest.lines mark there
      omega
  · intro mark member newline
    rcases List.mem_append.mp member with here | there
    · exact Nat.lt_of_lt_of_le (first.ended mark here newline) further
    · exact rest.ended mark there newline
  · intro token member
    exact (List.mem_append.mp member).elim (first.inside token) (rest.inside token)
  · exact fun ordered => rest.ordered (first.ordered ordered)
  · intro newlines
    rw [rest.plain fun mark member => newlines mark (List.mem_append_right _ member),
      first.plain fun mark member => newlines mark (List.mem_append_left _ member)]

/-- A piece with content is passed. Whether or not a line starts at it, the marks before it are on its line.
-/
theorem passes_solid {piece : Piece} (proper : piece.IsProper) (solid : piece.IsSolid)
    (margin : Margin) (line : Nat) (column : Option Nat) :
    ∃ marks after, Passes margin line column [piece] marks after (line + piece.lineEnds) none := by
  obtain ⟨mark, gives, sameLine⟩ := solid.marks_line line
  have written := proper.written line
  rw [gives] at written
  have inside : ∀ token, mark = .token token → token.kind ∉ [.newline, .endOfFile] := by
    rintro token rfl
    have visible := written token (List.mem_singleton.mpr rfl)
    simp [visible.ne]
  have passes (shifts : List Mark) (after : Margin)
      (reads : ∀ more, margin.read line column (piece :: more) =
        shifts ++ piece.marks line ++ after.read (line + piece.lineEnds) none more)
      (shifted : ∀ mark ∈ shifts, mark.line = line ∧
        ∀ token, mark = .token token → token.kind ∉ [.newline, .endOfFile])
      (ordered : margin.Ordered → after.Ordered) :
      Passes margin line column [piece] (shifts ++ [mark]) after (line + piece.lineEnds) none := by
    rw [gives] at reads
    have each : ∀ read ∈ shifts ++ [mark], read.line = line ∧
        ∀ token, read = .token token → token.kind ∉ [.newline, .endOfFile] := by
      intro read member
      rcases List.mem_append.mp member with early | here
      · exact shifted read early
      · rw [List.mem_singleton.mp here]
        exact ⟨sameLine, inside⟩
    have visible : ∀ read ∈ shifts ++ [mark], ¬read.IsNewline := by
      rintro read member ⟨token, same, ends⟩
      exact (each read member).2 token same (by simp [ends])
    refine ⟨reads, fun read member => ?_, fun read member newline => absurd newline (visible read member),
      fun token member ends => (each _ member).2 token rfl (by simp [ends]), ordered,
      fun newlines => absurd (newlines mark (by simp)) (visible mark (by simp))⟩
    rw [(each read member).1]
    omega
  cases column with
  | none =>
      exact ⟨_, _, passes [] margin (fun more => read_solid solid margin line none more)
        (fun _ member => absurd member List.not_mem_nil) id⟩
  | some column =>
      exact ⟨_, _, passes (margin.enter column line).2 (margin.enter column line).1
        (fun more => read_solid solid margin line (some column) more)
        (enter_marks margin column line) (fun ordered => enter_ordered ordered column line)⟩

/-- Every proper piece is passed. -/
theorem passes_piece {piece : Piece} (proper : piece.IsProper) (margin : Margin) (line : Nat)
    (column : Option Nat) :
    ∃ marks after shifted,
      Passes margin line column [piece] marks after (line + piece.lineEnds) shifted := by
  have silent (shifted : Option Nat) (short : piece.lineEnds = 0)
      (reads : ∀ more, margin.read line column (piece :: more) = margin.read line shifted more) :
      Passes margin line column [piece] [] margin (line + piece.lineEnds) shifted := by
    rw [short]
    exact ⟨reads, fun _ member => absurd member List.not_mem_nil,
      fun _ member => absurd member List.not_mem_nil,
      fun _ member => absurd member List.not_mem_nil, id, fun _ => rfl⟩
  have solid (solid : piece.IsSolid) : ∃ marks after shifted,
      Passes margin line column [piece] marks after (line + piece.lineEnds) shifted := by
    obtain ⟨marks, after, passes⟩ := passes_solid proper solid margin line column
    exact ⟨marks, after, none, passes⟩
  cases piece with
  | lineEnd =>
      refine ⟨[.structural .newline line], margin, some 0, fun _ => rfl, fun mark member => ?_,
        fun mark member _ => ?_, fun token member => ?_, id, fun _ => rfl⟩
      · rw [List.mem_singleton.mp member]
        exact ⟨Nat.le_refl line, Nat.le_succ line⟩
      · rw [List.mem_singleton.mp member]
        exact Nat.lt_succ_self line
      · cases List.mem_singleton.mp member
        exact Token.Kind.noConfusion
  | space => exact ⟨_, _, _, silent (column.map (· + 1)) rfl fun _ => rfl⟩
  | tab => exact ⟨_, _, _, silent (column.map (· + Piece.tabWidth)) rfl fun _ => rfl⟩
  | comment body =>
      refine ⟨_, _, _, silent none ?_ fun _ => rfl⟩
      exact List.count_eq_zero.mpr (by simpa [Piece.text] using proper.short body rfl)
  | _ => exact solid trivial

/-- All proper pieces are passed, by induction over the pieces. -/
theorem exists_passes (pieces : List Piece) (proper : ∀ piece ∈ pieces, piece.IsProper)
    (margin : Margin) (line : Nat) (column : Option Nat) :
    ∃ marks after shifted, Passes margin line column pieces marks after
      (line + (pieces.flatMap Piece.text).count '\n') shifted := by
  induction pieces generalizing margin line column with
  | nil => exact ⟨_, _, _, .nil margin line column⟩
  | cons piece pieces ih =>
      obtain ⟨here, others⟩ := List.forall_mem_cons.mp proper
      obtain ⟨early, between, next, first⟩ := passes_piece here margin line column
      obtain ⟨late, after, shifted, rest⟩ := ih others between (line + piece.lineEnds) next
      rw [List.flatMap_cons, List.count_append, ← Nat.add_assoc]
      exact ⟨_, _, _, first.cons rest (Nat.le_add_right _ _) (Nat.le_add_right _ _)⟩

/-- A text that is cut at a line end gives the same marks up to there whatever follows. -/
theorem exists_passes_line (text : List Char) :
    ∃ marks after shifted,
      Passes [] 1 none (Piece.cut 0 text) marks after (text.count '\n' + 1) shifted ∧
      ∀ more, Piece.cut 0 (text ++ '\n' :: more) = Piece.cut 0 text ++ .lineEnd :: Piece.cut 0 more →
        Mark.ofSource (text ++ '\n' :: more) = marks ++ .structural .newline (text.count '\n' + 1) ::
          after.read (text.count '\n' + 1 + 1) (some 0) (Piece.cut 0 more) := by
  obtain ⟨marks, after, shifted, passes⟩ :=
    exists_passes (Piece.cut 0 text) (Piece.cut_proper text) [] 1 none
  rw [Piece.cut_text, Nat.add_comm] at passes
  refine ⟨marks, after, shifted, passes, fun more cuts => ?_⟩
  unfold Mark.ofSource Piece.ofSource
  rw [cuts, passes.read]
  rfl

/-- The start of a text whose first line is not indented is read as the start of a line. -/
theorem read_flush {text : List Char} (flush : Text.IsFlush text) (line : Nat) :
    Margin.read [] line none (Piece.cut 0 text) = Margin.read [] line (some 0) (Piece.cut 0 text) := by
  cases text with
  | nil => rfl
  | cons character rest =>
      have plain := flush character rfl
      change Margin.read [] line none (Piece.startingAt character rest :: _) =
        Margin.read [] line (some 0) (Piece.startingAt character rest :: _)
      generalize Piece.cut _ rest = pieces
      apply Piece.startingAt_cases (motive := fun piece =>
        Margin.read [] line none (piece :: pieces) = Margin.read [] line (some 0) (piece :: pieces))
      case space => exact fun same => absurd same plain.1
      case tab => exact fun same => absurd same plain.2
      all_goals intros; rfl

/-- Marks that start neither with a line end nor with a block. -/
def Starts (marks : List Mark) : Prop :=
  ∃ mark rest, marks = mark :: rest ∧
    ∀ token, mark = .token token → token.kind ∉ [.newline, .indent]

/-- How marks that are read outside of all blocks compare to those that are read inside of some. Up to
the first token nothing but line ends is read. Then the text either opens a block, or closes those that
are open and goes on as it does outside. -/
def Seam (margin : Margin) (outside inside : List Mark) : Prop :=
  ∃ newlines : List Nat,
    (∃ line rest, outside =
      newlines.map (Mark.structural .newline) ++ .structural .indent line :: rest) ∨
    ∃ line rest, Starts rest ∧ outside = newlines.map (Mark.structural .newline) ++ rest ∧
      inside = newlines.map (Mark.structural .newline) ++
        (List.replicate margin.length (.structural .dedent line) ++ rest)

/-- A line end in front does not change how marks compare. -/
theorem Seam.newline {margin : Margin} {outside inside : List Mark}
    (seam : Seam margin outside inside) (line : Nat) :
    Seam margin (.structural .newline line :: outside) (.structural .newline line :: inside) := by
  obtain ⟨newlines, ⟨later, rest, rfl⟩ | ⟨later, rest, starts, rfl, rfl⟩⟩ := seam
  · exact ⟨line :: newlines, .inl ⟨later, rest, rfl⟩⟩
  · exact ⟨line :: newlines, .inr ⟨later, rest, starts, rfl, rfl⟩⟩

/-- At the end of a text the blocks close and nothing follows. -/
theorem seam_finish (margin : Margin) (line : Nat) :
    Seam margin (Margin.finish [] line) (margin.finish line) := by
  refine ⟨[line], .inr ⟨line, [.structural .endOfFile line], ⟨_, _, rfl, ?_⟩, rfl, rfl⟩⟩
  rintro token ⟨⟩
  exact show Token.Kind.endOfFile ∉ _ by decide

/-- The widths of open blocks are positive. -/
theorem Ordered.pos {margin : Margin} (ordered : margin.Ordered) :
    ∀ width ∈ margin, 0 < width := by
  induction margin with
  | nil => exact fun width member => absurd member List.not_mem_nil
  | cons width enclosing ih =>
      exact List.forall_mem_cons.mpr ⟨Nat.zero_lt_of_lt ordered.1, ih ordered.2⟩

/-- A first piece with content opens a block or closes those that are open. -/
theorem seam_solid {margin : Margin} (ordered : margin.Ordered) {piece : Piece}
    (proper : piece.IsProper) (solid : piece.IsSolid) (line column : Nat) (rest : List Piece) :
    Seam margin (Margin.read [] line (some column) (piece :: rest))
      (margin.read line (some column) (piece :: rest)) := by
  rw [read_solid solid, read_solid solid]
  dsimp only
  refine ⟨[], ?_⟩
  cases column with
  | zero =>
      have outside : Margin.enter [] 0 line = ([], []) := rfl
      have closing := @enter_close margin [] ordered.pos line
      rw [List.append_nil] at closing
      change margin.enter 0 line = _ at closing
      rw [outside, closing]
      obtain ⟨mark, gives, _⟩ := solid.marks_line line
      have written := proper.written line
      rw [gives] at written
      refine .inr ⟨line, piece.marks line ++ Margin.read [] (line + piece.lineEnds) none rest,
        ⟨mark, _, by rw [gives]; rfl, ?_⟩, rfl, List.append_assoc _ _ _⟩
      rintro token rfl
      have visible := written token (List.mem_singleton.mpr rfl)
      simp [visible.ne]
  | succ column =>
      refine .inl ⟨line, piece.marks line ++ Margin.read [column + 1] (line + piece.lineEnds) none rest,
        ?_⟩
      rw [enter_open (Nat.succ_pos column)]
      rfl

/-- Where a line ends the column does not count. -/
theorem read_ended {text : List Char} (ends : ∀ character ∈ text.head?, character = '\n')
    (margin : Margin) (line : Nat) :
    margin.read line none (Piece.cut 0 text) = margin.read line (some 0) (Piece.cut 0 text) := by
  cases text with
  | nil => rfl
  | cons character rest =>
      cases ends character rfl
      rfl

/-- A text from the start of a line on is read outside of all blocks as it is read inside of some. -/
theorem read_seam {margin : Margin} (ordered : margin.Ordered) (text : List Char)
    (line column : Nat) :
    Seam margin (Margin.read [] line (some column) (Piece.cut 0 text))
      (margin.read line (some column) (Piece.cut 0 text)) := by
  induction text using Piece.cut_induction generalizing line column with
  | empty => exact seam_finish margin line
  | step character covered after text whole ih =>
      rw [whole]
      have proper := Piece.startingAt_proper character (covered ++ after)
      cases piece : Piece.startingAt character (covered ++ after) with
      | lineEnd => exact (ih (line + 1) 0).newline line
      | space => exact ih line (column + 1)
      | tab => exact ih line (column + Piece.tabWidth)
      | comment body =>
          have ends := Piece.comment_ends piece text
          change Seam margin (Margin.read [] line none (Piece.cut 0 after))
            (margin.read line none (Piece.cut 0 after))
          rw [read_ended ends, read_ended ends]
          exact ih line 0
      | _ =>
          rw [piece] at proper
          exact seam_solid ordered proper trivial line column _

end Margin

end OffsideScript
