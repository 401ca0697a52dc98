import OffsideScript.Proofs.Token.Blocks
import OffsideScript.Proofs.Token.Lines

namespace OffsideScript

namespace Token

/-- The tokens up to a line, without the end of this line and all that follows. -/
def upTo (line : Nat) (tokens : List Token) : List Token :=
  tokens.takeWhile fun token => token.line < line ∨ token.line = line ∧ token.kind ≠ .newline

/-- The innermost block around a line, if there is one. -/
def blockAt (tokens : List Token) (line : Nat) : Option Nat :=
  (Blocks.start.run (upTo line tokens)).nested.head?

/-- A token above the line, or on it and not its end, is kept. -/
theorem upTo_cons_of_pos {line : Nat} {token : Token}
    (within : token.line < line ∨ token.line = line ∧ token.kind ≠ .newline) (rest : List Token) :
    upTo line (token :: rest) = token :: upTo line rest :=
  List.takeWhile_cons_of_pos (by simpa using within)

/-- At a token further down the rest is left out. -/
theorem upTo_cons_of_neg {line : Nat} {token : Token}
    (beyond : ¬(token.line < line ∨ token.line = line ∧ token.kind ≠ .newline)) (rest : List Token) :
    upTo line (token :: rest) = [] :=
  List.takeWhile_cons_of_neg (by simpa using beyond)

/-- At the end of the line the rest is left out. -/
theorem upTo_newline {line : Nat} {token : Token} (ends : token.kind = .newline)
    (beyond : ¬token.line < line) (rest : List Token) : upTo line (token :: rest) = [] :=
  upTo_cons_of_neg (by simp [beyond, ends]) rest

/-- Tokens that stand up to the line are kept. -/
theorem upTo_append {line : Nat} {early : List Token}
    (within : ∀ token ∈ early, token.line ≤ line ∧ token.kind ≠ .newline) (late : List Token) :
    upTo line (early ++ late) = early ++ upTo line late := by
  refine List.takeWhile_append_of_pos fun token member => ?_
  obtain ⟨bound, inside⟩ := within token member
  rcases Nat.lt_or_eq_of_le bound with less | same
  · simp [less]
  · simp [same, inside]

/-- If the first token stands further down, none is kept. -/
theorem upTo_of_later {line : Nat} {tokens : List Token}
    (later : ∀ token ∈ tokens.head?, line < token.line) : upTo line tokens = [] := by
  cases tokens with
  | nil => rfl
  | cons token rest =>
      have beyond := later token rfl
      exact upTo_cons_of_neg (by omega) rest

end Token

/-- The lines of pieces come from the first one on. -/
theorem Piece.starts_le {pieces : List Piece} (proper : ∀ piece ∈ pieces, piece.IsProper) (line : Nat)
    (column : Option Nat) : ∀ entry ∈ starts line column pieces, line ≤ entry.line := by
  apply reading_induction ?finish ?lineEnd ?silent ?solid proper line column
  case finish => simp [starts]
  case lineEnd =>
    intro line column rest _ later entry member
    exact Nat.le_of_succ_le (later entry member)
  case silent =>
    intro piece line column shifted rest _ _ _ starts later
    rwa [starts]
  case solid =>
    intro piece line column rest solid _ _ later entry member
    rw [starts_solid solid] at member
    rcases List.mem_append.mp member with here | behind
    · exact Nat.le_of_eq (Text.mem_entry.mp here).1.symm
    · have bound := later entry behind
      omega

/-- The tokens of pieces stand from the first line on. -/
theorem Margin.read_line_le {pieces : List Piece} (proper : ∀ piece ∈ pieces, piece.IsProper)
    (margin : Margin) (line : Nat) (column : Option Nat) :
    ∀ token ∈ (margin.read line column pieces).filterMap Mark.token?, line ≤ token.line :=
  fun token member => margin.read_mark_le proper line column (.token token) (Mark.mem_tokens.mp member)

/-- A token on a line that does not end it. -/
def Token.OnLine (line : Nat) (token : Token) : Prop :=
  token.line = line ∧ token.kind ≠ .newline

/-- A token on a line that is not beyond the target is kept. -/
theorem Token.OnLine.within {line target : Nat} {token : Token} (onLine : token.OnLine line)
    (inside : line ≤ target) : token.line ≤ target ∧ token.kind ≠ .newline :=
  ⟨onLine.1 ▸ inside, onLine.2⟩

/-- The tokens at the start of a line stand on it. -/
theorem Margin.enter_line (margin : Margin) (width line : Nat) :
    ∀ token ∈ (margin.enter width line).2.filterMap Mark.token?, token.OnLine line := by
  rw [Margin.enter_tokens]
  split
  · simp [Token.OnLine, Token.structural]
  · intro token member
    rw [List.eq_of_mem_replicate member]
    simp [Token.OnLine, Token.structural]

/-- The tokens of a piece stand on the line that it starts on. -/
theorem Piece.IsSolid.line_of_mem {piece : Piece} (solid : piece.IsSolid) (proper : piece.IsProper)
    (line : Nat) : ∀ token ∈ (piece.marks line).filterMap Mark.token?, token.OnLine line := by
  intro token member
  have listed := Mark.mem_tokens.mp member
  refine ⟨?_, (proper.written line token listed).ne (by decide)⟩
  obtain ⟨mark, gives, sameLine⟩ := solid.marks_line line
  rw [gives, List.mem_singleton] at listed
  rw [← sameLine, ← listed]
  rfl

namespace Blocks

/-- Lines beyond the target do not count. -/
theorem starts_beyond {pieces : List Piece} (proper : ∀ piece ∈ pieces, piece.IsProper)
    {target line : Nat} (beyond : target < line) (column : Option Nat) :
    (Piece.starts line column pieces).filter (·.line ≤ target) = [] := by
  rw [List.filter_eq_nil_iff]
  intro entry member
  have bound := Piece.starts_le proper line column entry member
  simp only [decide_eq_true_eq]
  omega

/-- The tokens of a piece without the shift before it. -/
theorem run_marks {piece : Piece} (proper : piece.IsProper) (line : Nat) (blocks : Blocks) :
    blocks.run ((piece.marks line).filterMap Mark.token?) = blocks := by
  apply run_plain
  intro token member
  have written := proper.written line token (Mark.mem_tokens.mp member)
  exact ⟨written.ne (by decide), written.ne (by decide)⟩

/-- Up to a line, the blocks that are read are those of the lines with content so far. -/
def Tracks (target line : Nat) (column : Option Nat) (pieces : List Piece) : Prop :=
  ∀ (margin : Margin) (blocks : Blocks),
    blocks.run (Token.upTo target ((margin.read line column pieces).filterMap Mark.token?)) =
      blocks.behind margin ((Piece.starts line column pieces).filter (·.line ≤ target))

namespace Tracks

variable {target line : Nat} {column : Option Nat} {piece : Piece} {rest : List Piece}

/-- Beyond the target nothing is read. -/
theorem beyond (later : target < line) (proper : ∀ piece ∈ rest, piece.IsProper) :
    Tracks target line column rest := by
  intro margin blocks
  rw [starts_beyond proper later, Token.upTo_of_later]
  · rfl
  · intro token first
    have bound := Margin.read_line_le proper margin line column token (List.mem_of_mem_head? first)
    omega

/-- At the end of the text nothing is left. -/
theorem finish (reached : target ≤ line) : Tracks target line column [] := by
  intro margin blocks
  unfold Margin.read
  rw [Margin.finish_tokens, Token.upTo_newline rfl]
  · rfl
  · exact Nat.not_lt_of_le reached

/-- The end of a line before the target goes on to the next line. -/
theorem lineEnd (proper : ∀ piece ∈ rest, piece.IsProper) (inside : line ≤ target)
    (later : Tracks target (line + 1) (some 0) rest) : Tracks target line column (.lineEnd :: rest) := by
  intro margin blocks
  change blocks.run (Token.upTo target (Token.structural .newline line ::
    (margin.read (line + 1) (some 0) rest).filterMap Mark.token?)) =
      blocks.behind margin ((Piece.starts (line + 1) (some 0) rest).filter (·.line ≤ target))
  by_cases last : target = line
  · rw [starts_beyond proper (by omega), Token.upTo_newline rfl]
    · rfl
    · exact Nat.not_lt_of_le (Nat.le_of_eq last)
  · have passed : line < target := by omega
    rw [Token.upTo_cons_of_pos (.inl passed)]
    exact later margin blocks

/-- A piece on a line up to the target is compared with the open blocks first. -/
theorem solid (solid : piece.IsSolid) (proper : piece.IsProper) (inside : line ≤ target)
    (later : Tracks target (line + piece.lineEnds) none rest) :
    Tracks target line column (piece :: rest) := by
  intro margin blocks
  have written := fun token member => (solid.line_of_mem proper line token member).within inside
  rw [Margin.read_solid solid, Piece.starts_solid solid]
  cases column with
  | none =>
      rw [List.nil_append, List.filterMap_append, Token.upTo_append written, run_append,
        run_marks proper]
      exact later margin blocks
  | some width =>
      have entered := fun token member =>
        (Margin.enter_line margin width line token member).within inside
      rw [List.append_assoc, List.filterMap_append, List.filterMap_append, Token.upTo_append entered,
        Token.upTo_append written, run_append, run_append, run_marks proper, Option.map_some,
        Option.toList_some, List.singleton_append, List.filter_cons_of_pos (by simpa using inside),
        behind_cons]
      exact later _ _

end Tracks

/-- Reading tracks the blocks of the lines up to any target, by induction over the pieces. -/
theorem tracks {pieces : List Piece} (proper : ∀ piece ∈ pieces, piece.IsProper) {target : Nat}
    (line : Nat) (column : Option Nat)
    (reached : target ≤ line + (pieces.flatMap Piece.text).count '\n') :
    Tracks target line column pieces := by
  by_cases ahead : target < line
  · exact .beyond ahead proper
  replace ahead : line ≤ target := Nat.le_of_not_lt ahead
  revert ahead reached
  apply Piece.reading_induction ?finish ?lineEnd ?silent ?solid proper line column
  case finish =>
    intro line column reached _
    exact .finish reached
  case lineEnd =>
    intro line column rest others later reached inside
    apply Tracks.lineEnd others inside
    by_cases last : target < line + 1
    · exact .beyond last others
    · refine later ?_ (by omega)
      rw [List.flatMap_cons, List.count_append, ← Nat.add_assoc] at reached
      exact reached
  case silent =>
    intro piece line column shifted rest short _ reads starts later reached inside
    rw [List.flatMap_cons, List.count_append] at reached
    have behind := later (by unfold Piece.lineEnds at short; omega) inside
    unfold Tracks at behind ⊢
    simpa only [reads, starts] using behind
  case solid =>
    intro piece line column rest solid here others later reached inside
    apply Tracks.solid solid here inside
    by_cases last : target < line + piece.lineEnds
    · exact .beyond last others
    · refine later ?_ (by omega)
      rw [List.flatMap_cons, List.count_append, ← Nat.add_assoc] at reached
      exact reached

end Blocks

namespace Token

/-- What follows the end of a line stands further down, unless it ends a block or the file. -/
def Rises (first second : Token) : Prop :=
  first.kind = .newline → second.kind ∉ [.dedent, .endOfFile] → first.line < second.line

/-- A relation that is about line ends only goes on over tokens in front that end no line. -/
theorem isChain_append {relation : Token → Token → Prop}
    (free : ∀ {first second : Token}, first.kind ≠ .newline → relation first second)
    {early rest : List Token} (inside : ∀ token ∈ early, token.kind ≠ .newline)
    (chain : rest.IsChain relation) : (early ++ rest).IsChain relation := by
  induction early with
  | nil => exact chain
  | cons token early ih =>
      obtain ⟨here, others⟩ := List.forall_mem_cons.mp inside
      exact (ih others).cons fun next _ => free here

/-- Tokens that end no line may stand in front. -/
theorem rises_append {early rest : List Token} (inside : ∀ token ∈ early, token.kind ≠ .newline)
    (chain : rest.IsChain Rises) : (early ++ rest).IsChain Rises :=
  isChain_append (fun other ends => absurd ends other) inside chain

/-- The tokens at the end of the text rise. -/
theorem finish_rise (margin : Margin) (line : Nat) :
    ((margin.finish line).filterMap Mark.token?).IsChain Rises := by
  rw [Margin.finish_tokens]
  have closing : (List.replicate margin.length (structural .dedent line) ++
      [structural .endOfFile line]).IsChain Rises := by
    apply rises_append
    · intro token member
      rw [List.eq_of_mem_replicate member]
      exact Kind.noConfusion
    · exact .singleton _
  apply closing.cons
  intro next first _ inside
  have member := List.mem_of_mem_head? first
  rcases List.mem_append.mp member with closes | finishes
  · simp [List.eq_of_mem_replicate closes, structural] at inside
  · simp [List.mem_singleton.mp finishes, structural] at inside

/-- The tokens of pieces rise, by induction over the pieces. -/
theorem pieces_rise {pieces : List Piece} (proper : ∀ piece ∈ pieces, piece.IsProper)
    (line : Nat) (column : Option Nat) (margin : Margin) :
    ((margin.read line column pieces).filterMap Mark.token?).IsChain Rises := by
  revert margin
  apply Piece.reading_induction ?finish ?lineEnd ?silent ?solid proper line column
  case finish =>
    intro line column margin
    exact finish_rise margin line
  case lineEnd =>
    intro line column rest others later margin
    apply (later margin).cons
    intro next first _ _
    exact Margin.read_line_le others margin (line + 1) (some 0) next (List.mem_of_mem_head? first)
  case silent =>
    intro piece line column shifted rest _ _ reads _ later margin
    rw [reads]
    exact later margin
  case solid =>
    intro piece line column rest solid here _ later margin
    have inside := fun token member => (solid.line_of_mem here line token member).2
    rw [Margin.read_solid solid, List.append_assoc, List.filterMap_append, List.filterMap_append]
    cases column with
    | none =>
        rw [List.filterMap_nil, List.nil_append]
        exact rises_append inside (later margin)
    | some width =>
        have entered := fun token member => (Margin.enter_line margin width line token member).2
        exact rises_append entered (rises_append inside (later _))

section Layout

variable {tokens : List Token} (target : Nat)

/-- The end of a line opens and closes nothing. -/
theorem run_newline {token : Token} (ends : token.kind = .newline) (blocks : Blocks)
    (rest : List Token) : blocks.run (token :: rest) = blocks.run rest := by
  change (blocks.turn token).run rest = _
  rw [Blocks.turn_plain (by simp [ends]) (by simp [ends])]

/-- Joining line ends keeps the blocks of every line. -/
theorem run_joinNewlines (chain : tokens.IsChain Rises) (blocks : Blocks) :
    blocks.run (upTo target (joinNewlines tokens)) = blocks.run (upTo target tokens) := by
  fun_induction joinNewlines tokens generalizing blocks with
  | case1 => rfl
  | case2 token => rfl
  | case3 token next rest dropped ih =>
      rw [ih chain.tail]
      by_cases passed : token.line < target
      · rw [upTo_cons_of_pos (.inl passed), run_newline dropped.1]
      · have rises : token.line < next.line := by
          apply (List.isChain_cons_cons.mp chain).1 dropped.1
          rcases dropped.2 with ends | opens <;> simp_all
        rw [upTo_newline dropped.1 passed, upTo_of_later]
        rintro _ ⟨⟩
        omega
  | case4 token next rest _ ih =>
      by_cases within : token.line < target ∨ token.line = target ∧ token.kind ≠ .newline
      · rw [upTo_cons_of_pos within, upTo_cons_of_pos within]
        exact ih chain.tail (blocks.turn token)
      · rw [upTo_cons_of_neg within, upTo_cons_of_neg within]

/-- Line ends before the first line open and close nothing. -/
theorem run_newlines {newlines rest : List Token} {token : Token}
    (ends : ∀ newline ∈ newlines, newline.kind = .newline) (inside : token.kind ≠ .dedent)
    (last : token.kind = .endOfFile → rest = []) (chain : (newlines ++ token :: rest).IsChain Rises)
    (blocks : Blocks) :
    blocks.run (upTo target (newlines ++ token :: rest)) = blocks.run (upTo target (token :: rest)) := by
  induction newlines with
  | nil => rfl
  | cons newline newlines ih =>
      obtain ⟨here, others⟩ := List.forall_mem_cons.mp ends
      rw [List.cons_append] at chain ⊢
      rw [← ih others chain.tail]
      by_cases passed : newline.line < target
      · rw [upTo_cons_of_pos (.inl passed), run_newline here]
      · rw [upTo_newline here passed]
        cases newlines with
        | cons next newlines =>
            have rises := (List.isChain_cons_cons.mp chain).1 here (by simp [others next])
            rw [upTo_of_later]
            rintro _ ⟨⟩
            omega
        | nil =>
            by_cases finishes : token.kind = .endOfFile
            · rw [last finishes]
              refine (Blocks.run_plain (fun other member => ?_) blocks).symm
              have same := List.mem_singleton.mp ((List.takeWhile_sublist _).subset member)
              simp [same, finishes]
            · have rises := (List.isChain_cons_cons.mp chain).1 here (by simp [inside, finishes])
              rw [List.nil_append, upTo_of_later]
              rintro _ ⟨⟩
              omega

/-- Nothing follows the end of the file. -/
theorem Finished.rest_eq_nil {before rest : List Token} {token : Token}
    (finished : Finished (before ++ token :: rest)) (finishes : token.kind = .endOfFile) :
    rest = [] := by
  obtain ⟨body, last, whole, _, inside⟩ := finished
  rcases List.eq_nil_or_concat rest with rfl | ⟨others, final, rfl⟩
  · rfl
  · rw [List.concat_eq_append, ← List.cons_append, ← List.append_assoc] at whole
    obtain ⟨rfl, _⟩ := List.append_inj' whole rfl
    exact absurd finishes (inside token (by simp))

/-- The layout of tokens keeps the blocks of every line. -/
theorem run_layout (chain : tokens.IsChain Rises) (balanced : Balanced tokens)
    (finished : Finished tokens) (blocks : Blocks) :
    blocks.run (upTo target (layout tokens)) = blocks.run (upTo target tokens) := by
  have whole := List.takeWhile_append_dropWhile (p := (·.kind = .newline)) (l := tokens)
  have ends : ∀ newline ∈ tokens.takeWhile (·.kind = .newline), newline.kind = .newline :=
    fun newline member => by simpa using List.mem_takeWhile_imp member
  unfold layout
  generalize tokens.takeWhile (·.kind = .newline) = newlines at whole ends
  cases shown : tokens.dropWhile (·.kind = .newline) with
  | nil =>
      rw [shown, List.append_nil] at whole
      refine (Blocks.run_plain (fun token member => ?_) blocks).symm
      have newline := ends token (whole ▸ (List.takeWhile_sublist _).subset member)
      simp [newline]
  | cons token rest =>
      rw [shown] at whole
      subst whole
      have inside : token.kind ≠ .dedent :=
        (balanced.of_visible (visible_newlines ends (token :: rest))).head token rfl
      have suffix : (token :: rest).IsChain Rises := chain.suffix (List.suffix_append _ _)
      rw [run_joinNewlines target suffix, run_newlines target ends inside finished.rest_eq_nil chain]

end Layout

end Token

/-- The first line opens and closes nothing. -/
theorem Blocks.behind_contents (text : List Char) (target : Nat) :
    start.behind [] ((Text.contents text).filter (·.line ≤ target)) =
      start.behind [] ((Text.laterContents .code 1 text).filter (·.line ≤ target)) := by
  unfold Text.contents
  cases Text.indentation text with
  | none => rfl
  | some width =>
      simp only [Option.map_some, Option.toList_some, List.singleton_append, List.filter_cons]
      split <;> rfl

/-- The lines up to one of them are those before it in the list. -/
theorem Text.contents_filter {text : List Char} {early late : List ContentLine} {entry : ContentLine}
    (whole : contents text = early ++ entry :: late) :
    (contents text).filter (·.line ≤ entry.line) = early ++ [entry] := by
  have ordered := contents_ordered text
  rw [whole] at ordered ⊢
  obtain ⟨_, behind, across⟩ := List.pairwise_append.mp ordered
  have before : early.filter (·.line ≤ entry.line) = early := by
    rw [List.filter_eq_self]
    intro other member
    simpa using Nat.le_of_lt (across other member entry List.mem_cons_self)
  have after : late.filter (·.line ≤ entry.line) = [] := by
    rw [List.filter_eq_nil_iff]
    intro other member
    simpa using List.rel_of_pairwise_cons behind member
  rw [List.filter_append, List.filter_cons_of_pos (by simp), before, after]

/-- A line with content is not below the end of the text. -/
theorem Text.HasContent.line_le {text : List Char} {entry : ContentLine}
    (content : HasContent text entry) : entry.line ≤ 1 + text.count '\n' := by
  obtain ⟨before, after, rfl, _, _, line, _⟩ := content
  rw [line, List.count_append]
  omega

namespace Token

/-- The innermost block around a line with content is told by the lines so far. -/
theorem blockAt_content {source : String} {early late : List ContentLine} {entry : ContentLine}
    (whole : Text.contents (Text.unifyLineEnds source.toList) = early ++ entry :: late) :
    blockAt (scan source).1 entry.line =
      (Blocks.start.behind [] (early ++ [entry])).nested.head? := by
  unfold blockAt
  change (Blocks.start.run (upTo entry.line
    (layout (read (Text.unifyLineEnds source.toList)).1))).nested.head? = _
  generalize Text.unifyLineEnds source.toList = text at *
  have content : Text.HasContent text entry := by
    rw [← Text.mem_contents, whole]
    simp
  have reached : entry.line ≤ 1 + ((Piece.cut 0 text).flatMap Piece.text).count '\n' := by
    rw [Piece.cut_text]
    exact content.line_le
  have proper := Piece.cut_proper text
  have chain : (read text).1.IsChain Rises := pieces_rise proper 1 none []
  have blocks := Blocks.tracks proper 1 none reached [] Blocks.start
  rw [Piece.starts_eq] at blocks
  rw [run_layout _ chain (read_balanced text) (read_endsLastLine text).finished,
    ← Text.contents_filter whole, Blocks.behind_contents]
  exact congrArg (·.nested.head?) blocks

/-- If no line is at fault, two lines with content are in the same block exactly if one continues the
other. -/
theorem blockAt_eq_iff {source : String}
    (fit : Margin.misfits [] (Text.contents (Text.unifyLineEnds source.toList)) = [])
    {first second : ContentLine}
    (one : Text.HasContent (Text.unifyLineEnds source.toList) first)
    (two : Text.HasContent (Text.unifyLineEnds source.toList) second)
    (below : first.line < second.line) :
    blockAt (scan source).1 first.line = blockAt (scan source).1 second.line ↔
      Text.Continues (Text.unifyLineEnds source.toList) first second := by
  obtain ⟨early, late, whole⟩ := List.append_of_mem (Text.mem_contents.mpr one)
  have ordered := Text.contents_ordered (Text.unifyLineEnds source.toList)
  have listed := Text.mem_contents.mpr two
  rw [whole] at ordered listed
  obtain ⟨between, rest, rfl⟩ := List.append_of_mem ((ContentLine.mem_late ordered).mpr ⟨listed, below⟩)
  have later : Text.contents (Text.unifyLineEnds source.toList) =
      (early ++ [first] ++ between) ++ second :: rest := by
    rw [whole]
    simp
  rw [blockAt_content whole, blockAt_content later, List.append_assoc _ between, Blocks.same_iff]
  · simp only [Text.Continues, below, true_and, Text.mem_between whole rfl, and_imp]
  · rw [later, List.append_cons, Margin.misfits_append, List.append_eq_nil_iff] at fit
    rw [← List.append_assoc]
    exact fit.1

/-- The offside rule. A line is reported as not matching an open block if and only if some line is
misaligned, and the first line that is reported is the first one that is misaligned. If none is reported,
two lines with content are in the same block exactly if the lower one continues the upper one. -/
theorem scan_offside (source : String) :
    ((∃ width line, .unmatchedIndentation width line ∈ (scan source).2) ↔
      ∃ entry, Text.Misaligned (Text.unifyLineEnds source.toList) entry) ∧
    (∀ entry, ((scan source).2.filterMap LexicalError.misfit?).head? = some entry ↔
      Text.Misaligned (Text.unifyLineEnds source.toList) entry ∧
        ∀ other, Text.Misaligned (Text.unifyLineEnds source.toList) other →
          entry.line ≤ other.line) ∧
    ((∀ width line, .unmatchedIndentation width line ∉ (scan source).2) →
      ∀ first second, Text.HasContent (Text.unifyLineEnds source.toList) first →
        Text.HasContent (Text.unifyLineEnds source.toList) second → first.line < second.line →
        (blockAt (scan source).1 first.line = blockAt (scan source).1 second.line ↔
          Text.Continues (Text.unifyLineEnds source.toList) first second)) := by
  refine ⟨?_, ?_, ?_⟩
  · rw [scan_reports_iff, ne_eq, Text.misfits_eq_nil_iff]
    simp
  · intro entry
    rw [scan_misfits]
    exact Text.misfits_head_iff _ entry
  · intro unreported first second
    apply blockAt_eq_iff
    by_contra misfits
    obtain ⟨width, line, member⟩ := (scan_reports_iff source).mpr misfits
    exact unreported width line member

/-- A block with an inner block, a comment that is not measured, a tab and a line inside of quotes. -/
def commentedBlock : String :=
  "while a\n    if b\n        c\n  # note\n\tprint 'x\ny'\nd"

/-- The lines of the commented block that have content. -/
theorem commentedBlock_contents :
    Text.contents (Text.unifyLineEnds commentedBlock.toList) =
      [⟨1, 0⟩, ⟨2, 4⟩, ⟨3, 8⟩, ⟨5, 4⟩, ⟨7, 0⟩] := by
  decide +kernel

/-- Around an inner block and a comment, two lines are in the same block. -/
theorem scan_offside_commented :
    (∀ width line, .unmatchedIndentation width line ∉ (scan commentedBlock).2) ∧
    Text.HasContent (Text.unifyLineEnds commentedBlock.toList) ⟨2, 4⟩ ∧
    Text.HasContent (Text.unifyLineEnds commentedBlock.toList) ⟨5, 4⟩ ∧
    blockAt (scan commentedBlock).1 2 = blockAt (scan commentedBlock).1 5 := by
  have silent : (scan commentedBlock).2 = [] := by decide +kernel
  have unreported : ∀ width line, .unmatchedIndentation width line ∉ (scan commentedBlock).2 := by
    simp [silent]
  have one : Text.HasContent (Text.unifyLineEnds commentedBlock.toList) ⟨2, 4⟩ := by
    rw [← Text.mem_contents, commentedBlock_contents]
    decide
  have two : Text.HasContent (Text.unifyLineEnds commentedBlock.toList) ⟨5, 4⟩ := by
    rw [← Text.mem_contents, commentedBlock_contents]
    decide
  have continues : Text.Continues (Text.unifyLineEnds commentedBlock.toList) ⟨2, 4⟩ ⟨5, 4⟩ := by
    refine ⟨by decide, rfl, fun between content => ?_⟩
    rw [← Text.mem_contents, commentedBlock_contents] at content
    revert between
    decide
  exact ⟨unreported, one, two,
    ((scan_offside commentedBlock).2.2 unreported _ _ one two (by decide)).mpr continues⟩

end Token

end OffsideScript
