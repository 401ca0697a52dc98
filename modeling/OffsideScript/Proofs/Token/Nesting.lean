import OffsideScript.Proofs.Token.Content
import OffsideScript.Proofs.Token.Seam
import Mathlib.Data.List.Chain
import Mathlib.Data.List.Infix

namespace OffsideScript

namespace Token

/-- The number of blocks that tokens open. -/
def indents (tokens : List Token) : Nat :=
  tokens.countP (·.kind = .indent)

/-- The number of blocks that tokens close. -/
def dedents (tokens : List Token) : Nat :=
  tokens.countP (·.kind = .dedent)

/-- Every block that is closed was opened before, and every block that is opened is closed. -/
structure Balanced (tokens : List Token) : Prop where
  covered : ∀ before, before <+: tokens → dedents before ≤ indents before
  whole : dedents tokens = indents tokens

instance (tokens : List Token) : Decidable (Balanced tokens) :=
  decidable_of_iff
    ((∀ before ∈ tokens.inits, dedents before ≤ indents before) ∧ dedents tokens = indents tokens)
    ⟨fun counts => ⟨fun before beginning => counts.1 before ((List.mem_inits _ _).mpr beginning), counts.2⟩,
      fun balanced => ⟨fun before member => balanced.covered before ((List.mem_inits _ _).mp member),
        balanced.whole⟩⟩

/-- The end of the file stands at the end and nowhere else. -/
def Finished (tokens : List Token) : Prop :=
  ∃ body last, tokens = body ++ [last] ∧ last.kind = .endOfFile ∧
    ∀ token ∈ body, token.kind ≠ .endOfFile

/-- Every end of a block directly follows the end of a line or of another block. -/
def ClosesBetweenLines (tokens : List Token) : Prop :=
  ∀ before token after, tokens = before ++ token :: after → token.kind = .dedent →
    ∃ previous ∈ before.getLast?, previous.kind = .newline ∨ previous.kind = .dedent

/-- Tokens that end with the file, with blocks that are balanced and close between lines. -/
structure FormsBlocks (tokens : List Token) : Prop where
  finished : Finished tokens
  balanced : Balanced tokens
  between : ClosesBetweenLines tokens

/-- The last line ends, then the blocks that are still open, and then the file. -/
def EndsLastLine (tokens : List Token) : Prop :=
  ∃ body count line, (∀ token ∈ body, token.kind ≠ .endOfFile) ∧
    tokens = body ++ structural .newline line ::
      (List.replicate count (structural .dedent line) ++ [structural .endOfFile line])

@[simp] theorem indents_nil : indents [] = 0 := rfl

@[simp] theorem dedents_nil : dedents [] = 0 := rfl

@[simp] theorem indents_append (left right : List Token) :
    indents (left ++ right) = indents left + indents right :=
  List.countP_append

@[simp] theorem dedents_append (left right : List Token) :
    dedents (left ++ right) = dedents left + dedents right :=
  List.countP_append

@[simp] theorem indents_cons (token : Token) (rest : List Token) :
    indents (token :: rest) = (if token.kind = .indent then 1 else 0) + indents rest := by
  simp [indents, List.countP_cons, Nat.add_comm]

@[simp] theorem dedents_cons (token : Token) (rest : List Token) :
    dedents (token :: rest) = (if token.kind = .dedent then 1 else 0) + dedents rest := by
  simp [dedents, List.countP_cons, Nat.add_comm]

/-- The tokens without the line ends. -/
def visible (tokens : List Token) : List Token :=
  tokens.filter (·.kind ≠ .newline)

/-- Line ends open no block. -/
theorem indents_visible (tokens : List Token) : indents (visible tokens) = indents tokens := by
  unfold indents visible
  rw [List.countP_filter]
  congr 1
  funext token
  by_cases opens : token.kind = .indent <;> simp [opens]

/-- Line ends close no block. -/
theorem dedents_visible (tokens : List Token) : dedents (visible tokens) = dedents tokens := by
  unfold dedents visible
  rw [List.countP_filter]
  congr 1
  funext token
  by_cases closes : token.kind = .dedent <;> simp [closes]

/-- Line ends in front are not visible. -/
theorem visible_newlines {newlines : List Token}
    (ends : ∀ newline ∈ newlines, newline.kind = .newline) (rest : List Token) :
    visible (newlines ++ rest) = visible rest := by
  unfold visible
  rw [List.filter_append, List.filter_eq_nil_iff.mpr, List.nil_append]
  intro newline member
  simpa using ends newline member

/-- Joining line ends changes nothing that is visible. -/
theorem joinNewlines_visible (tokens : List Token) :
    visible (joinNewlines tokens) = visible tokens := by
  unfold visible
  fun_induction joinNewlines tokens with
  | case1 => rfl
  | case2 token => rfl
  | case3 token next rest dropped ih =>
      rw [ih]
      exact (List.filter_cons_of_neg (by simp [dropped.1])).symm
  | case4 token next rest _ ih => rw [List.filter_cons, List.filter_cons, ih]

/-- Only line ends are dropped. -/
theorem layout_visible (tokens : List Token) : visible (layout tokens) = visible tokens := by
  have ends : ∀ newline ∈ tokens.takeWhile (·.kind = .newline), newline.kind = .newline :=
    fun newline member => by simpa using List.mem_takeWhile_imp member
  unfold layout
  rw [joinNewlines_visible, ← visible_newlines ends, List.takeWhile_append_dropWhile]

/-- Line ends do not count for the balance of blocks. -/
theorem Balanced.of_visible {left right : List Token} (balanced : Balanced left)
    (same : visible left = visible right) : Balanced right where
  covered before beginning := by
    obtain ⟨after, rfl⟩ := beginning
    have split : visible left = visible before ++ visible after :=
      same.trans (List.filter_append before after)
    obtain ⟨early, late, rfl, alike, _⟩ := List.filter_eq_append_iff.mp split
    have bound := balanced.covered early (List.prefix_append early late)
    rw [← indents_visible, ← dedents_visible] at bound ⊢
    change dedents (visible early) ≤ indents (visible early) at bound
    rwa [show visible early = visible before from alike] at bound
  whole := by
    have counts := balanced.whole
    rw [← indents_visible, ← dedents_visible, same] at counts
    rwa [← indents_visible, ← dedents_visible]

end Token

namespace Margin

/-- What a mark does to the open blocks: the start of a block adds a wider one, the end of a block
removes the innermost one, and any other mark keeps them. -/
inductive Turns : Margin → Mark → Margin → Prop where
  | opens {margin : Margin} {width line : Nat} (wider : margin.width < width) :
      Turns margin (.structural .indent line) (width :: margin)
  | closes {margin : Margin} {width line : Nat} :
      Turns (width :: margin) (.structural .dedent line) margin
  | stays {margin : Margin} {mark : Mark}
      (plain : ∀ token, mark = .token token → token.kind ≠ .indent ∧ token.kind ≠ .dedent) :
      Turns margin mark margin

/-- Marks that turn some open blocks into others, one mark after the other. -/
inductive Run : Margin → List Mark → Margin → Prop where
  | nil {margin : Margin} : Run margin [] margin
  | cons {first second last : Margin} {mark : Mark} {marks : List Mark}
      (turns : Turns first mark second) (rest : Run second marks last) :
      Run first (mark :: marks) last

/-- The open blocks get wider from the outermost level on, and they are those that were opened by marks
and not closed. -/
structure InStep (margin : Margin) (marks : List Mark) : Prop where
  increasing : (0 :: margin.reverse).Pairwise (· < ·)
  count : Token.dedents (marks.filterMap Mark.token?) + margin.length =
    Token.indents (marks.filterMap Mark.token?)

/-- The widths stay ordered. -/
theorem Turns.ordered {before after : Margin} {mark : Mark} (turns : Turns before mark after)
    (ordered : before.Ordered) : after.Ordered := by
  cases turns with
  | opens wider => exact ⟨wider, ordered⟩
  | closes => exact ordered.2
  | stays plain => exact ordered

/-- The open blocks are counted by what opens and closes them. -/
theorem Turns.count {before after : Margin} {mark : Mark} (turns : Turns before mark after) :
    Token.dedents mark.token?.toList + after.length =
      Token.indents mark.token?.toList + before.length := by
  cases turns with
  | opens wider => simp [Mark.structural, Mark.token?, Token.structural_kind, Nat.add_comm]
  | closes => simp [Mark.structural, Mark.token?, Token.structural_kind, Nat.add_comm]
  | stays plain =>
      cases mark with
      | token read => simp [Mark.token?, plain read rfl]
      | fault error => rfl

/-- The widths get larger from the outermost block on. -/
theorem Ordered.increasing {margin : Margin} (ordered : margin.Ordered) :
    (0 :: margin.reverse).Pairwise (· < ·) := by
  have decreasing : margin.Pairwise fun inner outer => outer < inner := by
    induction margin with
    | nil => exact .nil
    | cons width enclosing ih =>
        have others := ih ordered.2
        refine .cons (fun outer member => ?_) others
        have wider : Margin.width enclosing < width := ordered.1
        cases enclosing with
        | nil => cases member
        | cons next enclosing =>
            rcases List.mem_cons.mp member with rfl | further
            · exact wider
            · exact Nat.lt_trans (List.rel_of_pairwise_cons others further) wider
  refine .cons (fun width member => ordered.pos width (List.mem_reverse.mp member)) ?_
  exact List.pairwise_reverse.mpr decreasing

namespace Run

variable {first middle last : Margin} {early late marks : List Mark} {mark : Mark}

/-- Marks are run one list after another. -/
theorem append (before : Run first early middle) (after : Run middle late last) :
    Run first (early ++ late) last := by
  induction before with
  | nil => exact after
  | cons turns _ ih => exact .cons turns (ih after)

/-- A single mark. -/
theorem single (turns : Turns first mark last) : Run first [mark] last :=
  .cons turns .nil

/-- A run over two lists comes through a margin between them. -/
theorem split (run : Run first (early ++ late) last) :
    ∃ middle, Run first early middle ∧ Run middle late last := by
  induction early generalizing first with
  | nil => exact ⟨first, .nil, run⟩
  | cons mark early ih =>
      cases run with
      | cons turns rest =>
          obtain ⟨middle, before, after⟩ := ih rest
          exact ⟨middle, .cons turns before, after⟩

/-- The widths stay ordered along a run. -/
theorem ordered (run : Run first marks last) (start : first.Ordered) : last.Ordered := by
  induction run with
  | nil => exact start
  | cons turns _ ih => exact ih (turns.ordered start)

/-- The open blocks are counted along a run. -/
theorem count (run : Run first marks last) :
    Token.dedents (marks.filterMap Mark.token?) + last.length =
      Token.indents (marks.filterMap Mark.token?) + first.length := by
  induction run with
  | nil => rfl
  | @cons _ _ _ mark marks turns rest ih =>
      have here := turns.count
      have tokens : (mark :: marks).filterMap Mark.token? =
          mark.token?.toList ++ marks.filterMap Mark.token? := by
        rw [List.filterMap_cons]
        cases mark.token? <;> rfl
      rw [tokens, Token.dedents_append, Token.indents_append]
      omega

/-- A run from no open blocks is in step with its marks. -/
theorem inStep (run : Run [] marks last) : InStep last marks :=
  ⟨(run.ordered trivial).increasing, run.count⟩

/-- Marks that neither open nor close a block. -/
theorem plain (margin : Margin) (all : ∀ mark ∈ marks, ∀ token, mark = .token token →
    token.kind ≠ .indent ∧ token.kind ≠ .dedent) : Run margin marks margin := by
  induction marks with
  | nil => exact .nil
  | cons mark marks ih =>
      obtain ⟨here, others⟩ := List.forall_mem_cons.mp all
      exact .cons (.stays here) (ih others)

/-- Ends of blocks close as many blocks. -/
theorem closing (inner margin : Margin) (line : Nat) :
    Run (inner ++ margin) (List.replicate inner.length (.structural .dedent line)) margin := by
  induction inner with
  | nil => exact .nil
  | cons width inner ih => exact .cons .closes ih

end Run

/-- Blocks are closed from the innermost on. -/
theorem close_suffix (margin : Margin) (column : Nat) : margin.close column <:+ margin := by
  induction margin with
  | nil => exact List.suffix_rfl
  | cons width enclosing ih =>
      unfold close
      split
      · exact ih.trans (List.suffix_cons width enclosing)
      · exact List.suffix_rfl

/-- The start of a line is a run to the margin behind it. -/
theorem enter_run (margin : Margin) (column line : Nat) :
    Run margin (margin.enter column line).2 (margin.enter column line).1 := by
  unfold enter
  split
  · next wider => exact .single (.opens wider)
  · obtain ⟨inner, whole⟩ := margin.close_suffix column
    have count : margin.length - (margin.close column).length = inner.length := by
      rw [← whole, List.length_append]
      simp [whole]
    have closes := Run.closing inner (margin.close column) line
    rw [whole] at closes
    dsimp only
    rw [count]
    refine closes.append (.plain _ fun mark member token same => ?_)
    split at member
    · cases member
    · cases (List.mem_singleton.mp member).symm.trans same

/-- The end of a text closes all blocks. -/
theorem finish_run (margin : Margin) (line : Nat) : Run margin (margin.finish line) [] := by
  have newline : Turns margin (.structural .newline line) margin := by
    refine .stays fun token same => ?_
    cases same
    simp [Token.structural_kind]
  have finish : Turns [] (.structural .endOfFile line) [] := by
    refine .stays fun token same => ?_
    cases same
    simp [Token.structural_kind]
  have closes := Run.closing margin [] line
  rw [List.append_nil] at closes
  exact .cons newline (closes.append (.single finish))

/-- Reading a piece is a run to the margin that the rest is read with. -/
theorem piece_run {piece : Piece} (proper : piece.IsProper) (margin : Margin) (line : Nat)
    (column : Option Nat) :
    ∃ marks after later shifted, Run margin marks after ∧
      ∀ more, margin.read line column (piece :: more) = marks ++ after.read later shifted more := by
  have solid (solid : piece.IsSolid) : ∃ marks after later shifted, Run margin marks after ∧
      ∀ more, margin.read line column (piece :: more) =
        marks ++ after.read later shifted more := by
    refine ⟨_, _, _, _, ?_, fun more => read_solid solid margin line column more⟩
    have written (margin : Margin) : Run margin (piece.marks line) margin := by
      refine .plain margin fun mark member token same => ?_
      subst same
      have visible := proper.written line token member
      exact ⟨visible.ne (by decide), visible.ne (by decide)⟩
    cases column with
    | none => exact written margin
    | some column => exact (enter_run margin column line).append (written _)
  cases piece with
  | lineEnd =>
      refine ⟨[.structural .newline line], margin, line + 1, some 0, .single (.stays ?_),
        fun _ => rfl⟩
      rintro token ⟨⟩
      simp [Token.structural_kind]
  | space | tab | comment => exact ⟨[], margin, line, _, .nil, fun _ => rfl⟩
  | _ => exact solid trivial

/-- Reading some pieces is a run to the margin that the rest is read with. -/
theorem pieces_run {pieces : List Piece} (proper : ∀ piece ∈ pieces, piece.IsProper)
    (margin : Margin) (line : Nat) (column : Option Nat) :
    ∃ marks after later shifted, Run margin marks after ∧
      ∀ more, margin.read line column (pieces ++ more) = marks ++ after.read later shifted more := by
  induction pieces generalizing margin line column with
  | nil => exact ⟨[], margin, line, column, .nil, fun _ => rfl⟩
  | cons piece pieces ih =>
      obtain ⟨here, others⟩ := List.forall_mem_cons.mp proper
      obtain ⟨early, between, middle, next, first, reads⟩ := piece_run here margin line column
      obtain ⟨late, after, later, shifted, rest, goes⟩ := ih others between middle next
      refine ⟨early ++ late, after, later, shifted, first.append rest, fun more => ?_⟩
      rw [List.cons_append, reads, goes, List.append_assoc]

end Margin

/-- The tokens of marks are those that are marks. -/
theorem Mark.mem_tokens {marks : List Mark} {token : Token} :
    token ∈ marks.filterMap Mark.token? ↔ .token token ∈ marks := by
  rw [List.mem_filterMap]
  constructor
  · rintro ⟨mark, member, same⟩
    cases mark with
    | token read =>
        cases same
        exact member
    | fault error => cases same
  · intro member
    exact ⟨.token token, member, rfl⟩

/-- A wider line opens one block, and any other closes those that are wider. -/
theorem Margin.enter_tokens (margin : Margin) (column line : Nat) :
    (margin.enter column line).2.filterMap Mark.token? =
      if margin.width < column then [Token.structural .indent line]
      else List.replicate (margin.length - (margin.close column).length)
        (Token.structural .dedent line) := by
  have dedents (count : Nat) :
      (List.replicate count (Mark.structural .dedent line)).filterMap Mark.token? =
        List.replicate count (Token.structural .dedent line) := by
    simp [List.filterMap_replicate, Mark.structural, Mark.token?]
  unfold enter
  split
  · rfl
  · dsimp only
    rw [List.filterMap_append, dedents]
    split <;> exact List.append_nil _

/-- At the end the last line ends, then all blocks, and then the file. -/
theorem Margin.finish_tokens (margin : Margin) (line : Nat) :
    (margin.finish line).filterMap Mark.token? = Token.structural .newline line ::
      (List.replicate margin.length (Token.structural .dedent line) ++
        [Token.structural .endOfFile line]) := by
  have tokens : margin.finish line = (Token.structural .newline line ::
      (List.replicate margin.length (Token.structural .dedent line) ++
        [Token.structural .endOfFile line])).map .token := by
    rw [List.map_cons, List.map_append, List.map_replicate]
    rfl
  rw [tokens, Mark.tokens_map]

/-- The marks of a text are a run from no open blocks to none. -/
theorem Mark.ofSource_run (text : List Char) : Margin.Run [] (Mark.ofSource text) [] := by
  obtain ⟨marks, after, later, shifted, run, reads⟩ :=
    Margin.pieces_run (Piece.cut_proper text) [] 1 none
  have whole := reads []
  rw [List.append_nil] at whole
  unfold Mark.ofSource Piece.ofSource
  rw [whole]
  exact run.append (after.finish_run later)

namespace Token

/-- The blocks of a text are balanced. -/
theorem read_balanced (text : List Char) : Balanced (read text).1 where
  covered before beginning := by
    obtain ⟨after, whole⟩ := beginning
    obtain ⟨early, late, marks, rfl, _⟩ := List.filterMap_eq_append_iff.mp whole.symm
    obtain ⟨margin, run, _⟩ := (marks ▸ Mark.ofSource_run text).split
    have count := run.count
    rw [List.length_nil] at count
    omega
  whole := (Mark.ofSource_run text).count

/-- The start of balanced tokens closes no block. -/
theorem Balanced.head {tokens : List Token} (balanced : Balanced tokens) :
    ∀ token ∈ tokens.head?, token.kind ≠ .dedent := by
  intro token first closes
  obtain ⟨rest, rfl⟩ := List.head?_eq_some_iff.mp first
  have bound := balanced.covered [token] ⟨rest, rfl⟩
  simp [closes] at bound

/-- A text ends with its last line. -/
theorem read_endsLastLine (text : List Char) : EndsLastLine (read text).1 := by
  obtain ⟨marks, margin, shifted, passes⟩ :=
    Margin.exists_passes (Piece.cut 0 text) (Piece.cut_proper text) [] 1 none
  have whole := passes.whole
  generalize 1 + ((Piece.cut 0 text).flatMap Piece.text).count '\n' = line at whole passes
  have shape : (read text).1 =
      marks.filterMap Mark.token? ++ (margin.finish line).filterMap Mark.token? := by
    unfold read Mark.ofSource Piece.ofSource
    dsimp only
    rw [whole, List.filterMap_append]
  rw [shape, margin.finish_tokens]
  refine ⟨_, _, _, fun token member => ?_, rfl⟩
  exact passes.inside token (Mark.mem_tokens.mp member)

/-- Tokens that end with the last line are finished. -/
theorem EndsLastLine.finished {tokens : List Token} (ends : EndsLastLine tokens) :
    Finished tokens := by
  obtain ⟨body, count, line, inside, rfl⟩ := ends
  refine ⟨body ++ structural .newline line :: List.replicate count (structural .dedent line),
    structural .endOfFile line, by simp, rfl, fun token member => ?_⟩
  rcases List.mem_append.mp member with early | late
  · exact inside token early
  · rcases List.mem_cons.mp late with rfl | closes
    · exact Kind.noConfusion
    · rw [List.eq_of_mem_replicate closes]
      exact Kind.noConfusion

/-- The layout of tokens ends with their last line, if there is a line at all. -/
theorem layout_endsLastLine {tokens : List Token} (ends : EndsLastLine tokens)
    (balanced : Balanced tokens) :
    (∃ line, layout tokens = [structural .endOfFile line]) ∨ EndsLastLine (layout tokens) := by
  obtain ⟨body, count, line, inside, rfl⟩ := ends
  have finishes : (structural .endOfFile line).kind ∉ [.newline, .indent] :=
    show Kind.endOfFile ∉ _ by decide
  rcases newlines_or_last body with all | ⟨before, token, newlines, rfl, visible, all⟩
  · have newlines : ∀ token ∈ body ++ [structural .newline line], token.kind = .newline :=
      List.forall_mem_append.mpr ⟨all, newlines_kind [line]⟩
    rw [List.append_cons] at balanced ⊢
    have nothing : count = 0 := by
      have counts := (balanced.of_visible (visible_newlines newlines _)).whole
      simpa [structural_kind, dedents, indents, List.countP_replicate] using counts
    subst nothing
    refine .inl ⟨line, ?_⟩
    rw [List.replicate_zero, List.nil_append]
    exact layout_newlines newlines Kind.noConfusion []
  · refine .inr ⟨joinNewlines (before.dropWhile (·.kind = .newline) ++ [token]), count, line,
      fun other member => ?_, ?_⟩
    · refine inside other ?_
      rcases List.mem_append.mp ((joinNewlines_sublist _).subset member) with early | last
      · exact List.mem_append_left _ ((List.dropWhile_sublist _).subset early)
      · rw [List.mem_singleton.mp last]
        exact List.mem_append_right _ List.mem_cons_self
    · rw [List.append_assoc]
      exact layout_lines visible all rfl count line finishes []

/-- A token may follow another: the end of a block only follows the end of a line or of a block. -/
def MayFollow (first second : Token) : Prop :=
  second.kind = .dedent → first.kind = .newline ∨ first.kind = .dedent

/-- Balanced tokens that may follow each other close their blocks between lines. -/
theorem ClosesBetweenLines.of_chain {tokens : List Token} (chain : tokens.IsChain MayFollow)
    (balanced : Balanced tokens) : ClosesBetweenLines tokens := by
  rintro before token after rfl closes
  rcases List.eq_nil_or_concat before with rfl | ⟨early, previous, rfl⟩
  · exact absurd closes (balanced.head token rfl)
  · refine ⟨previous, by simp, ?_⟩
    have whole : early.concat previous ++ token :: after = early ++ previous :: token :: after := by
      simp
    exact List.isChain_iff_forall_rel_of_append_cons_cons.mp chain whole closes

/-- The tokens at the start of a line may stand before others. -/
theorem enter_chain (margin : Margin) (column line : Nat) {rest : List Token}
    (chain : rest.IsChain MayFollow) (inside : ∀ token ∈ rest.head?, token.kind ≠ .dedent) :
    ((margin.enter column line).2.filterMap Mark.token? ++ rest).IsChain MayFollow := by
  have closes (count : Nat) :
      (List.replicate count (structural .dedent line) ++ rest).IsChain MayFollow := by
    induction count with
    | zero => exact chain
    | succ count ih => exact ih.cons fun _ _ _ => .inr rfl
  rw [Margin.enter_tokens]
  split
  · exact chain.cons fun token first closed => absurd closed (inside token first)
  · exact closes _

/-- A line end may follow any token and goes before any token. -/
theorem newline_chain (line : Nat) {rest : List Token} (chain : rest.IsChain MayFollow) :
    (structural .newline line :: rest).IsChain MayFollow ∧
      ∀ token ∈ (structural .newline line :: rest).head?, token.kind ≠ .dedent := by
  refine ⟨chain.cons fun _ _ _ => .inl rfl, ?_⟩
  rintro token ⟨⟩
  exact Kind.noConfusion

/-- A piece that is written gives no end of a block. -/
theorem marks_chain {piece : Piece} (solid : piece.IsSolid) (proper : piece.IsProper) (line : Nat)
    {rest : List Token} (chain : rest.IsChain MayFollow)
    (inside : ∀ token ∈ rest.head?, token.kind ≠ .dedent) :
    ((piece.marks line).filterMap Mark.token? ++ rest).IsChain MayFollow ∧
      ∀ token ∈ ((piece.marks line).filterMap Mark.token? ++ rest).head?, token.kind ≠ .dedent := by
  obtain ⟨mark, gives, _⟩ := solid.marks_line line
  have written := proper.written line
  rw [gives] at written ⊢
  cases mark with
  | token read =>
      refine ⟨chain.cons fun token first closed => absurd closed (inside token first), ?_⟩
      rintro _ ⟨⟩
      exact (written read (List.mem_singleton.mpr rfl)).ne (by decide)
  | fault error => exact ⟨chain, inside⟩

/-- Tokens that are read follow each other, and if no line starts there, they close no block at first. -/
theorem pieces_chain {pieces : List Piece} (proper : ∀ piece ∈ pieces, piece.IsProper)
    (line : Nat) (column : Option Nat) (margin : Margin) :
    ((margin.read line column pieces).filterMap Mark.token?).IsChain MayFollow ∧
      (column = none →
        ∀ token ∈ ((margin.read line column pieces).filterMap Mark.token?).head?,
          token.kind ≠ .dedent) := by
  revert margin
  apply Piece.reading_induction ?finish ?lineEnd ?silent ?solid proper line column
  case finish =>
    intro line column margin
    have closing (count : Nat) : (List.replicate count (structural .dedent line) ++
        [structural .endOfFile line]).IsChain MayFollow := by
      induction count with
      | zero => exact .singleton _
      | succ count ih => exact ih.cons fun _ _ _ => .inr rfl
    unfold Margin.read
    rw [margin.finish_tokens]
    have ended := newline_chain line (closing margin.length)
    exact ⟨ended.1, fun _ => ended.2⟩
  case lineEnd =>
    intro line column rest _ later margin
    have ended := newline_chain line (later margin).1
    exact ⟨ended.1, fun _ => ended.2⟩
  case silent =>
    intro piece line column shifted rest _ unknown reads _ later margin
    rw [reads]
    exact ⟨(later margin).1, fun absent => (later margin).2 (unknown absent)⟩
  case solid =>
    intro piece line column rest solid here _ later margin
    have behind (margin : Margin) :=
      marks_chain solid here line (later margin).1 ((later margin).2 rfl)
    rw [Margin.read_solid solid, List.filterMap_append, List.filterMap_append, List.append_assoc]
    cases column with
    | none => exact ⟨(behind margin).1, fun _ => (behind margin).2⟩
    | some column =>
        exact ⟨enter_chain margin column line (behind _).1 (behind _).2, fun known => by cases known⟩

/-- The first token that is kept is the end of a block only if the first token was. -/
theorem joinNewlines_head {token : Token} (rest : List Token) (inside : token.kind ≠ .dedent) :
    ∀ first ∈ (joinNewlines (token :: rest)).head?, first.kind ≠ .dedent := by
  induction rest generalizing token with
  | nil =>
      rintro first ⟨⟩
      exact inside
  | cons next rest ih =>
      unfold joinNewlines
      split
      · next dropped =>
          refine ih fun closes => ?_
          simp [closes] at dropped
      · rintro first ⟨⟩
        exact inside

/-- Tokens may still follow each other after line ends are joined. -/
theorem joinNewlines_chain {tokens : List Token} (chain : tokens.IsChain MayFollow) :
    (joinNewlines tokens).IsChain MayFollow := by
  fun_induction joinNewlines tokens with
  | case1 => exact .nil
  | case2 token => exact chain
  | case3 token next rest _ ih => exact ih chain.tail
  | case4 token next rest _ ih =>
      refine (ih chain.tail).cons fun first known closes => ?_
      by_cases closed : next.kind = .dedent
      · exact (List.isChain_cons_cons.mp chain).1 closed
      · exact absurd closes (joinNewlines_head rest closed first known)

/-- The tokens that are read form blocks. -/
theorem read_formsBlocks (text : List Char) : FormsBlocks (read text).1 where
  finished := (read_endsLastLine text).finished
  balanced := read_balanced text
  between := .of_chain (pieces_chain (Piece.cut_proper text) 1 none []).1 (read_balanced text)

/-- The layout keeps the balance. -/
theorem layout_balanced {tokens : List Token} (balanced : Balanced tokens) :
    Balanced (layout tokens) :=
  balanced.of_visible (layout_visible tokens).symm

/-- The layout keeps the blocks. -/
theorem layout_formsBlocks (text : List Char) : FormsBlocks (layout (read text).1) where
  finished := by
    rcases layout_endsLastLine (read_endsLastLine text) (read_balanced text) with ⟨line, alone⟩ | ends
    · rw [alone]
      exact ⟨[], _, rfl, rfl, by simp⟩
    · exact ends.finished
  balanced := layout_balanced (read_balanced text)
  between := by
    have chain := (pieces_chain (Piece.cut_proper text) 1 none []).1
    refine .of_chain (joinNewlines_chain ?_) (layout_balanced (read_balanced text))
    exact chain.suffix (List.dropWhile_suffix _)

/-- The tokens of every text form blocks, before and after the layout, whatever faults the text has.
While the text is read, the widths of the open blocks are in step with the tokens so far, behind each
mark and with each margin that reading goes on with. -/
theorem scan_formsBlocks (source : String) (text : List Char) :
    FormsBlocks (read text).1 ∧ EndsLastLine (read text).1 ∧
    FormsBlocks (scan source).1 ∧
    ((∃ line, (scan source).1 = [structural .endOfFile line]) ∨ EndsLastLine (scan source).1) ∧
    (∀ index, ∃ margin, Margin.Run [] ((Mark.ofSource text).take index) margin ∧
      Margin.Run margin ((Mark.ofSource text).drop index) [] ∧
      margin.InStep ((Mark.ofSource text).take index)) ∧
    ∀ index, ∃ (marks : List Mark) (margin : Margin) (line : Nat) (column : Option Nat),
      margin.InStep marks ∧
      ∀ more, Margin.read [] 1 none ((Piece.ofSource text).take index ++ more) =
        marks ++ margin.read line column more := by
  refine ⟨read_formsBlocks text, read_endsLastLine text, layout_formsBlocks _,
    layout_endsLastLine (read_endsLastLine _) (read_balanced _), ?_, ?_⟩
  · intro index
    have run := Mark.ofSource_run text
    rw [← List.take_append_drop index (Mark.ofSource text)] at run
    obtain ⟨margin, before, after⟩ := run.split
    exact ⟨margin, before, after, before.inStep⟩
  · intro index
    have proper : ∀ piece ∈ (Piece.ofSource text).take index, piece.IsProper :=
      fun piece member => Piece.cut_proper text piece (List.mem_of_mem_take member)
    obtain ⟨marks, margin, line, column, run, reads⟩ := Margin.pieces_run proper [] 1 none
    exact ⟨marks, margin, line, column, run.inStep, reads⟩

end Token

end OffsideScript
