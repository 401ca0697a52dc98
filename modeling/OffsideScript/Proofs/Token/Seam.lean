import OffsideScript.Proofs.Token.Passing
import Mathlib.Tactic.SplitIfs

namespace OffsideScript

namespace Token

/-- Line ends are joined by the kinds of tokens only. -/
theorem joinNewlines_map {change : Token → Token} (kinds : ∀ token, (change token).kind = token.kind)
    (tokens : List Token) :
    joinNewlines (tokens.map change) = (joinNewlines tokens).map change := by
  fun_induction joinNewlines tokens with
  | case1 => rfl
  | case2 token => rfl
  | case3 token next rest dropped ih =>
      rw [List.map_cons, List.map_cons, joinNewlines, kinds, kinds, if_pos dropped, ← List.map_cons, ih]
  | case4 token next rest kept ih =>
      rw [List.map_cons, List.map_cons, joinNewlines, kinds, kinds, if_neg kept, ← List.map_cons, ih,
        List.map_cons]

/-- Joining goes on anew after a token that ends no line. -/
theorem joinNewlines_after {token : Token} (other : token.kind ≠ .newline)
    (before rest : List Token) :
    joinNewlines (before ++ token :: rest) = joinNewlines (before ++ [token]) ++ joinNewlines rest := by
  induction before with
  | nil =>
      rw [List.nil_append, List.nil_append, joinNewlines_cons other, joinNewlines_cons other]
      rfl
  | cons head before ih =>
      have starts : ∃ next others fewer, before ++ token :: rest = next :: others ∧
          before ++ [token] = next :: fewer := by
        cases before with
        | nil => exact ⟨_, _, _, rfl, rfl⟩
        | cons next before => exact ⟨_, _, _, rfl, rfl⟩
      obtain ⟨next, others, fewer, long, short⟩ := starts
      rw [List.cons_append, List.cons_append, long, short, joinNewlines, joinNewlines, ← long,
        ← short, ih]
      split <;> rfl

/-- Of line ends in a row the last one is kept. -/
theorem joinNewlines_newlines {newlines : List Token} {newline : Token} {rest : List Token}
    (all : ∀ token ∈ newlines, token.kind = .newline) (ends : newline.kind = .newline)
    (kept : joinNewlines (newline :: rest) = newline :: joinNewlines rest) :
    joinNewlines (newlines ++ newline :: rest) = newline :: joinNewlines rest := by
  induction newlines with
  | nil => exact kept
  | cons head newlines ih =>
      obtain ⟨here, others⟩ := List.forall_mem_cons.mp all
      rw [← ih others]
      cases newlines with
      | nil => exact joinNewlines_drop here (by simp [ends])
      | cons second newlines =>
          exact joinNewlines_drop here (by simp [others second List.mem_cons_self])

/-- Line ends are line ends on any line. -/
theorem newlines_kind (lines : List Nat) :
    ∀ token ∈ lines.map (structural .newline), token.kind = .newline := by
  intro token member
  obtain ⟨line, _, rfl⟩ := List.mem_map.mp member
  rfl

/-- The last token of a list that does not end a line. -/
theorem newlines_or_last (tokens : List Token) :
    (∀ token ∈ tokens, token.kind = .newline) ∨
      ∃ before token newlines, tokens = before ++ token :: newlines ∧ token.kind ≠ .newline ∧
        ∀ newline ∈ newlines, newline.kind = .newline := by
  induction tokens with
  | nil => exact .inl fun token member => absurd member List.not_mem_nil
  | cons head tokens ih =>
      rcases ih with all | ⟨before, token, newlines, rfl, other, all⟩
      · by_cases ends : head.kind = .newline
        · exact .inl (List.forall_mem_cons.mpr ⟨ends, all⟩)
        · exact .inr ⟨[], head, tokens, rfl, ends, all⟩
      · exact .inr ⟨head :: before, token, newlines, rfl, other, all⟩

/-- Line ends in front of the first line are left out. -/
theorem layout_newlines {newlines : List Token} {next : Token}
    (all : ∀ token ∈ newlines, token.kind = .newline) (other : next.kind ≠ .newline)
    (rest : List Token) : layout (newlines ++ next :: rest) = joinNewlines (next :: rest) := by
  unfold layout
  rw [List.dropWhile_append_of_pos (by simpa using all),
    List.dropWhile_cons_of_neg (by simpa using other)]

/-- Only line ends in front of the first token that ends no line are left out. -/
theorem dropWhile_newlines {token : Token} (other : token.kind ≠ .newline) (before rest : List Token) :
    (before ++ token :: rest).dropWhile (·.kind = .newline) =
      before.dropWhile (·.kind = .newline) ++ token :: rest := by
  rw [List.dropWhile_append]
  split
  · next empty =>
      rw [List.isEmpty_iff.mp empty, List.dropWhile_cons_of_neg (by simpa using other)]
      rfl
  · rfl

/-- Lines that end before the ends of blocks and the start of another line are laid out on their own. -/
theorem layout_lines {before newlines : List Token} {token newline next : Token}
    (visible : token.kind ≠ .newline) (all : ∀ token ∈ newlines, token.kind = .newline)
    (ends : newline.kind = .newline) (count line : Nat) (other : next.kind ∉ [.newline, .indent])
    (rest : List Token) :
    layout (before ++ token :: (newlines ++ newline ::
        (List.replicate count (.structural .dedent line) ++ next :: rest))) =
      joinNewlines (before.dropWhile (·.kind = .newline) ++ [token]) ++
        newline :: (List.replicate count (.structural .dedent line) ++
          joinNewlines (next :: rest)) := by
  have dedents : ∀ dedent ∈ List.replicate count (structural .dedent line),
      dedent.kind ≠ .newline := by
    intro dedent member
    rw [List.eq_of_mem_replicate member]
    exact Kind.noConfusion
  have starts : joinNewlines (next :: rest) = next :: joinNewlines rest :=
    joinNewlines_cons (fun ends => other (by simp [ends])) rest
  unfold layout
  rw [dropWhile_newlines visible, joinNewlines_after visible, joinNewlines_newlines all ends, joinNewlines_append dedents]
  rw [joinNewlines_append dedents, starts]
  exact joinNewlines_line count line other rest

/-- Joining line ends only leaves out tokens. -/
theorem joinNewlines_sublist (tokens : List Token) : (joinNewlines tokens).Sublist tokens := by
  fun_induction joinNewlines tokens with
  | case1 => exact .refl _
  | case2 token => exact .refl _
  | case3 token next rest _ ih => exact ih.cons token
  | case4 token next rest _ ih => exact ih.cons_cons token

/-- A change of tokens that moves line ends and the bounds of blocks only. -/
structure Relines (change : Token → Token) : Prop where
  unlined : ∀ token, (change token).unlined = token.unlined
  written : ∀ token, token.kind.IsWritten → change token = token

/-- A token keeps its kind. -/
theorem Relines.kind {change : Token → Token} (relines : Relines change) (token : Token) :
    (change token).kind = token.kind :=
  kind_of_unlined (relines.unlined token)

/-- Line ends and ends of blocks after a line are put on other lines. -/
def reline (limit newline dedent : Nat) (token : Token) : Token :=
  if token.line ≤ limit then token
  else if token.kind = .newline then token.onLine newline
  else if token.kind = .dedent then token.onLine dedent
  else token

/-- Putting line ends and ends of blocks on other lines moves nothing else. -/
theorem reline_relines (limit newline dedent : Nat) : Relines (reline limit newline dedent) := by
  refine ⟨fun token => ?_, fun token written => ?_⟩
  · unfold reline
    split_ifs <;> rfl
  · unfold reline
    rw [if_neg (written.ne (by decide)), if_neg (written.ne (by decide)), ite_self]

end Token

/-- Marks without a fault are tokens. -/
theorem Mark.exists_tokens {marks : List Mark} (faultless : marks.filterMap fault? = []) :
    ∃ tokens : List Token, marks = tokens.map .token := by
  induction marks with
  | nil => exact ⟨[], rfl⟩
  | cons mark marks ih =>
      cases mark with
      | token read =>
          obtain ⟨tokens, rfl⟩ := ih faultless
          exact ⟨read :: tokens, rfl⟩
      | fault error => cases faultless

/-- Marks that are tokens are split as tokens. -/
theorem Mark.exists_tokens_append {early late : List Mark} {tokens : List Token}
    (shape : early ++ late = tokens.map .token) :
    ∃ before after, early = before.map .token ∧ late = after.map .token ∧
      tokens = before ++ after := by
  obtain ⟨before, after, rfl, first, second⟩ := List.map_eq_append_iff.mp shape.symm
  exact ⟨before, after, first.symm, second.symm, rfl⟩

/-- The first piece is read before the others, behind the marks of its line. -/
theorem Margin.read_cons (piece : Piece) (rest : List Piece) (margin : Margin) (line : Nat)
    (column : Option Nat) :
    ∃ (shifts : List Mark) (after : Margin) (later : Nat) (next : Option Nat),
      margin.read line column (piece :: rest) =
        shifts ++ piece.marks line ++ after.read later next rest := by
  have solid (solid : piece.IsSolid) := read_solid solid margin line column rest
  cases piece with
  | lineEnd => exact ⟨[.structural .newline line], margin, line + 1, some 0, rfl⟩
  | space | tab | comment => exact ⟨[], margin, line, _, rfl⟩
  | _ => exact ⟨_, _, _, _, solid trivial⟩

/-- Marks that are tokens tell the tokens. -/
theorem Mark.tokens_injective {left right : List Token}
    (same : left.map Mark.token = right.map Mark.token) : left = right := by
  have tokens := congrArg (List.filterMap token?) same
  rwa [tokens_map, tokens_map] at tokens

/-- A quote that is not closed is a fault. -/
theorem Margin.closed_of_tokens {pieces : List Piece} {margin : Margin} {line : Nat}
    {column : Option Nat} {tokens : List Token}
    (reads : margin.read line column pieces = tokens.map .token) :
    ∀ content, .unclosed content ∉ pieces := by
  induction pieces generalizing margin line column tokens with
  | nil => exact fun content member => absurd member List.not_mem_nil
  | cons piece pieces ih =>
      obtain ⟨shifts, after, later, next, shape⟩ := read_cons piece pieces margin line column
      rw [shape] at reads
      obtain ⟨early, late, here, rest, _⟩ := Mark.exists_tokens_append reads
      intro content member
      rcases List.mem_cons.mp member with rfl | there
      · have faulty : Mark.fault (.unterminatedText line) ∈ early.map .token := by
          rw [← here]
          exact List.mem_append_right _ (List.mem_singleton.mpr rfl)
        obtain ⟨_, _, same⟩ := List.mem_map.mp faulty
        cases same
      · exact ih rest content there

namespace Token

/-- A text whose marks are tokens is scanned to their layout. -/
theorem scan_of_marks {source : String} {raw : List Token}
    (marks : Mark.ofSource (Text.unifyLineEnds source.toList) = raw.map .token) :
    scan source = (layout raw, []) := by
  unfold scan read
  rw [marks]
  dsimp only
  rw [Mark.tokens_map, Mark.faults_map]

/-- A text that is scanned without a fault has tokens for marks. -/
theorem marks_of_scan {source : String} {tokens : List Token}
    (scanned : scan source = (tokens, [])) :
    ∃ raw, Mark.ofSource (Text.unifyLineEnds source.toList) = raw.map .token ∧
      layout raw = tokens := by
  obtain ⟨raw, marks⟩ := Mark.exists_tokens (congrArg Prod.snd scanned)
  refine ⟨raw, marks, ?_⟩
  rw [scan_of_marks marks] at scanned
  exact congrArg Prod.fst scanned

/-- A text up to a line end gives the same tokens whatever follows. -/
theorem ofSource_line {text : List Char} {tokens : List Token}
    (read : Mark.ofSource (text ++ ['\n']) = tokens.map .token) :
    ∃ (raw : List Token) (margin : Margin), margin.Ordered ∧
      (∀ token ∈ raw, token.line ≤ text.count '\n' + 1 ∧ token.kind ≠ .endOfFile) ∧
      ((∀ token ∈ raw, token.kind = .newline) → margin = []) ∧
      ∀ more, Mark.ofSource (text ++ '\n' :: more) =
        (raw ++ [structural .newline (text.count '\n' + 1)]).map .token ++
          margin.read (1 + (text.count '\n' + 1)) (some 0) (Piece.cut 0 more) := by
  have cuts := Piece.cut_line text (Margin.closed_of_tokens read)
  obtain ⟨marks, margin, shifted, passes, reads⟩ := Margin.exists_passes_line text
  rw [reads [] (cuts [])] at read
  obtain ⟨raw, _, rfl, _⟩ := Mark.exists_tokens_append read
  refine ⟨raw, margin, passes.ordered trivial, fun token member => ?_, fun all => passes.plain ?_,
    fun more => ?_⟩
  · have listed : Mark.token token ∈ raw.map .token := List.mem_map_of_mem member
    exact ⟨(passes.lines _ listed).2, passes.inside token listed⟩
  · intro mark member
    obtain ⟨token, listed, rfl⟩ := List.mem_map.mp member
    exact ⟨token, rfl, all token listed⟩
  · rw [reads more (cuts more), Nat.add_comm 1, List.map_append, List.append_assoc]
    rfl

/-- Up to the limit nothing moves. -/
theorem reline_eq {limit : Nat} {token : Token} (early : token.line ≤ limit) (newline dedent : Nat) :
    reline limit newline dedent token = token :=
  if_pos early

/-- The end of the line behind the limit moves. -/
theorem reline_newline (limit newline dedent : Nat) :
    reline limit newline dedent (structural .newline (limit + 1)) = structural .newline newline :=
  if_neg (Nat.not_succ_le_self limit)

/-- The end of a block behind the limit moves. -/
theorem reline_dedent (limit newline dedent : Nat) :
    reline limit newline dedent (structural .dedent (limit + 1)) = structural .dedent dedent :=
  if_neg (Nat.not_succ_le_self limit)

/-- What is laid out before the end of a file is laid out before other lines too, up to the lines of its
last line end and of the ends of its blocks. -/
theorem layout_seam {raw : List Token} {limit count : Nat}
    (bounds : ∀ token ∈ raw, token.line ≤ limit ∧ token.kind ≠ .endOfFile)
    (blank : (∀ token ∈ raw, token.kind = .newline) → count = 0) :
    ∃ body, (∀ token ∈ body, token.kind ≠ .endOfFile) ∧
      layout (raw ++ structural .newline limit :: structural .newline (limit + 1) ::
          (List.replicate count (structural .dedent (limit + 1)) ++
            [structural .endOfFile (limit + 1)])) =
        body ++ [structural .endOfFile (limit + 1)] ∧
      ∀ (newlines : List Nat) (later : Nat) (next : Token) (rest : List Token),
        next.kind ∉ [.newline, .indent] → ∃ change, Relines change ∧
          layout (raw ++ structural .newline limit :: (newlines.map (structural .newline) ++
              (List.replicate count (structural .dedent later) ++ next :: rest))) =
            body.map change ++ joinNewlines (next :: rest) := by
  have finishes : (structural .endOfFile (limit + 1)).kind ∉ [.newline, .indent] :=
    show Kind.endOfFile ∉ _ by decide
  rcases newlines_or_last raw with all | ⟨before, token, tail, rfl, visible, all⟩
  · have together (lines : List Nat) : ∀ token ∈ raw ++ lines.map (structural .newline),
        token.kind = .newline :=
      List.forall_mem_append.mpr ⟨all, newlines_kind lines⟩
    have laid (lines : List Nat) {next : Token} (other : next.kind ∉ [.newline, .indent])
        (rest : List Token) :
        layout (raw ++ (lines.map (structural .newline) ++ next :: rest)) =
          joinNewlines (next :: rest) := by
      rw [← List.append_assoc]
      exact layout_newlines (together lines) (fun ends => other (by simp [ends])) rest
    rw [blank all]
    refine ⟨[], by simp, laid [limit, limit + 1] finishes [], fun newlines later next rest other =>
      ⟨id, ⟨fun _ => rfl, fun _ _ => rfl⟩, laid (limit :: newlines) other rest⟩⟩
  · let start := joinNewlines (before.dropWhile (·.kind = .newline) ++ [token])
    have inside : ∀ token ∈ start, token.line ≤ limit ∧ token.kind ≠ .endOfFile := by
      intro other member
      refine bounds other ?_
      rcases List.mem_append.mp ((joinNewlines_sublist _).subset member) with early | last
      · exact List.mem_append_left _ ((List.dropWhile_sublist _).subset early)
      · rw [List.mem_singleton.mp last]
        exact List.mem_append_right _ List.mem_cons_self
    have laid (lines : List Nat) (last later : Nat) {next : Token}
        (other : next.kind ∉ [.newline, .indent]) (rest : List Token) :
        layout (before ++ token :: tail ++ ((lines ++ [last]).map (structural .newline) ++
            (List.replicate count (structural .dedent later) ++ next :: rest))) =
          start ++ structural .newline last ::
            (List.replicate count (structural .dedent later) ++ joinNewlines (next :: rest)) := by
      have newlines := List.forall_mem_append.mpr ⟨all, newlines_kind lines⟩
      have lined := @layout_lines before (tail ++ lines.map (structural .newline)) token
        (structural .newline last) next visible newlines rfl count later other rest
      simpa [start] using lined
    refine ⟨start ++ structural .newline (limit + 1) ::
      List.replicate count (structural .dedent (limit + 1)), ?_, ?_, ?_⟩
    · intro other member
      rcases List.mem_append.mp member with early | late
      · exact (inside other early).2
      · rcases List.mem_cons.mp late with rfl | closes
        · exact Kind.noConfusion
        · rw [List.eq_of_mem_replicate closes]
          exact Kind.noConfusion
    · have lined := laid [limit] (limit + 1) (limit + 1) finishes []
      simpa [joinNewlines] using lined
    · intro newlines later next rest other
      obtain ⟨lines, last, shape⟩ : ∃ lines last, limit :: newlines = lines ++ [last] :=
        ⟨_, _, (List.dropLast_concat_getLast (List.cons_ne_nil limit newlines)).symm⟩
      refine ⟨reline limit last later, reline_relines limit last later, ?_⟩
      have lined := laid lines last later other rest
      rw [← shape] at lined
      have same : start.map (reline limit last later) = start :=
        (List.map_congr_left fun token member => reline_eq (inside token member).1 last later).trans
          (List.map_id start)
      refine (Eq.trans ?_ lined).trans ?_
      · rfl
      · rw [List.map_append, List.map_cons, List.map_replicate, same, reline_newline,
          reline_dedent, List.append_assoc, List.cons_append]

/-- A text whose first line is not indented and opens no block gives line ends and then a token that
goes on behind the blocks that are closed before it. -/
theorem ofSource_seam {margin : Margin} (ordered : margin.Ordered) {text : List Char}
    (flush : Text.IsFlush text) {raw : List Token} (read : Mark.ofSource text = raw.map .token)
    (outside : ∀ token rest, layout raw = token :: rest → token.kind ≠ .indent) :
    ∃ (newlines : List Nat) (later : Nat) (next : Token) (rest : List Token),
      next.kind ∉ [.newline, .indent] ∧ raw = newlines.map (structural .newline) ++ next :: rest ∧
      margin.read 1 (some 0) (Piece.cut 0 text) =
        (newlines.map (structural .newline) ++
          (List.replicate margin.length (structural .dedent later) ++ next :: rest)).map .token := by
  have lines (newlines : List Nat) : newlines.map (Mark.structural .newline) =
      (newlines.map (structural .newline)).map .token := by
    rw [List.map_map]
    rfl
  unfold Mark.ofSource Piece.ofSource at read
  rw [Margin.read_flush flush] at read
  have seam := Margin.read_seam ordered text 1 0
  rw [read] at seam
  obtain ⟨newlines, ⟨line, rest, shape⟩ | ⟨later, marks, ⟨mark, others, rfl, starts⟩, shape, inside⟩⟩ :=
    seam
  · obtain ⟨early, late, same, opens, rfl⟩ := Mark.exists_tokens_append shape.symm
    rw [lines] at same
    obtain ⟨indent, rest, rfl, first, _⟩ := List.map_eq_cons_iff.mp opens.symm
    cases first
    rw [← Mark.tokens_injective same, layout_newlines (newlines_kind newlines) Kind.noConfusion,
      joinNewlines_cons Kind.noConfusion] at outside
    exact absurd rfl (outside _ _ rfl)
  · obtain ⟨early, late, same, opens, rfl⟩ := Mark.exists_tokens_append shape.symm
    rw [lines] at same
    obtain ⟨next, rest, rfl, rfl, rfl⟩ := List.map_eq_cons_iff.mp opens.symm
    refine ⟨newlines, later, next, rest, starts next rfl, by rw [Mark.tokens_injective same], ?_⟩
    rw [inside, lines, List.map_append, List.map_append, List.map_replicate]
    rfl

/-- A text behind a line end is scanned as it is scanned alone, on later lines. -/
theorem scan_append {first second : String} {one two : List Token}
    (ends : Text.EndsLine first.toList) (flush : Text.IsFlush second.toList)
    (before : scan first = (one, [])) (after : scan second = (two, []))
    (outside : ∀ token rest, two = token :: rest → token.kind ≠ .indent) :
    ∃ body last change, Relines change ∧ one = body ++ [last] ∧ last.kind = .endOfFile ∧
      (∀ token ∈ body, token.kind ≠ .endOfFile) ∧
      scan (first ++ second) =
        (body.map change ++ two.map (lower (Text.lineEnds first.toList)), []) := by
  rcases ends.unifyLineEnds with nothing | ⟨opening, count, unified⟩
  · have empty : first = "" := String.toList_eq_nil_iff.mp nothing
    subst empty
    have finish : scan "" = ([structural .endOfFile 1], []) := rfl
    rw [finish] at before
    cases before
    refine ⟨[], _, id, ⟨fun _ => rfl, fun _ _ => rfl⟩, rfl, rfl, by simp, ?_⟩
    rw [String.empty_append, after]
    exact congrArg (·, []) (List.map_id two).symm
  · have alone : Text.unifyLineEnds first.toList = opening ++ ['\n'] := by
      have single := unified []
      rwa [List.append_nil] at single
    have together : Text.unifyLineEnds (first ++ second).toList =
        opening ++ '\n' :: Text.unifyLineEnds second.toList := by
      rw [String.toList_append]
      exact unified second.toList
    obtain ⟨firstRaw, firstMarks, rfl⟩ := marks_of_scan before
    obtain ⟨secondRaw, secondMarks, rfl⟩ := marks_of_scan after
    rw [alone] at firstMarks
    obtain ⟨raw, margin, ordered, bounds, blank, reads⟩ := ofSource_line firstMarks
    obtain ⟨newlines, later, next, rest, other, rfl, inside⟩ :=
      ofSource_seam ordered flush.unifyLineEnds secondMarks outside
    rw [← count] at bounds reads
    have closed : (∀ token ∈ raw, token.kind = .newline) → List.length margin = 0 :=
      fun all => by rw [blank all]; rfl
    obtain ⟨body, finished, laid, joins⟩ := layout_seam bounds closed
    generalize Text.lineEnds first.toList = lines at bounds reads laid joins
    obtain ⟨change, relines, joined⟩ := joins (newlines.map (· + lines)) (later + lines)
      (next.lower lines) (rest.map (lower lines)) other
    refine ⟨body, structural .endOfFile (lines + 1), change, relines, ?_, rfl, finished, ?_⟩
    · have finish : margin.finish (1 + lines) = (structural .newline (lines + 1) ::
          (List.replicate (List.length margin) (structural .dedent (lines + 1)) ++
            [structural .endOfFile (lines + 1)])).map .token := by
        rw [Nat.add_comm, List.map_cons, List.map_append, List.map_replicate]
        rfl
      have whole := firstMarks.symm.trans (reads [])
      change _ = _ ++ margin.finish (1 + lines) at whole
      rw [finish, ← List.map_append, List.append_assoc] at whole
      rw [← laid, Mark.tokens_injective whole]
      rfl
    · have marks := reads (Text.unifyLineEnds second.toList)
      rw [← together, Margin.read_lower, inside] at marks
      have lowered : ((newlines.map (structural .newline) ++
          (List.replicate (List.length margin) (structural .dedent later) ++ next :: rest)).map
            Mark.token).map (Mark.lower lines) =
          ((newlines.map (· + lines)).map (structural .newline) ++
            (List.replicate (List.length margin) (structural .dedent (later + lines)) ++
              next.lower lines :: rest.map (lower lines))).map Mark.token := by
        simp only [List.map_append, List.map_cons, List.map_map, List.map_replicate]
        rfl
      rw [lowered, ← List.map_append, List.append_assoc] at marks
      have alike : joinNewlines ((next :: rest).map (lower lines)) =
          (joinNewlines (next :: rest)).map (lower lines) := joinNewlines_map (lower_kind lines) _
      have visible : next.kind ≠ .newline := fun ends => other (by simp [ends])
      have second := layout_newlines (newlines_kind newlines) visible rest
      rw [scan_of_marks marks, List.singleton_append, joined, ← List.map_cons, alike, second]

end Token

end OffsideScript
