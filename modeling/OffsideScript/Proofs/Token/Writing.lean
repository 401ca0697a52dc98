import OffsideScript.Proofs.Token.Spelling

namespace OffsideScript

namespace Text

/-- Spaces and tabs only. -/
def IsBlank (text : List Char) : Prop :=
  ∀ character ∈ text, character = ' ' ∨ character = '\t'

/-- The width of the blanks before a line. -/
def blankWidth : List Char → Nat
  | [] => 0
  | character :: rest => (if character = '\t' then 4 else 1) + blankWidth rest

end Text

/-- Where in a text a token is written. -/
inductive Slot where
  | lineStart
  | blockStart
  | inLine
  deriving DecidableEq, Repr

/-- A text that writes tokens out from a slot inside of some open blocks on. A block has at least one
line, and the last line may lack its end. -/
inductive Written : Margin → Slot → List Token → List Char → Prop where
  | done : Written [] .lineStart [] []
  | first {margin : Margin} {slot : Slot} {token : Token} {tokens : List Token}
      {blanks text : List Char} (starts : slot ≠ .inLine) (solid : token.kind.IsWritten)
      (blank : Text.IsBlank blanks) (aligned : Text.blankWidth blanks = margin.width)
      (rest : Written margin .inLine tokens text) :
      Written margin slot (token :: tokens) (blanks ++ (token.lexeme.toList ++ text))
  | next {margin : Margin} {token : Token} {tokens : List Token} {blanks text : List Char}
      (solid : token.kind.IsWritten) (blank : Text.IsBlank blanks) (apart : blanks ≠ [])
      (rest : Written margin .inLine tokens text) :
      Written margin .inLine (token :: tokens) (blanks ++ (token.lexeme.toList ++ text))
  | lineEnd {margin : Margin} {newline : Token} {tokens : List Token} {text : List Char}
      (ends : newline.kind = .newline) (rest : Written margin .lineStart tokens text) :
      Written margin .inLine (newline :: tokens) ('\n' :: text)
  | lastLine {margin : Margin} {newline : Token} {dedents : List Token}
      (ends : newline.kind = .newline) (closes : ∀ dedent ∈ dedents, dedent.kind = .dedent)
      (closed : dedents.length = margin.length) :
      Written margin .inLine (newline :: dedents) []
  | block {margin : Margin} {width : Nat} {indent : Token} {tokens : List Token}
      {text : List Char} (opens : indent.kind = .indent) (wider : margin.width < width)
      (rest : Written (width :: margin) .blockStart tokens text) :
      Written margin .inLine (indent :: tokens) ('\n' :: text)
  | close {margin : Margin} {width : Nat} {dedent : Token} {tokens : List Token}
      {text : List Char} (closes : dedent.kind = .dedent)
      (rest : Written margin .lineStart tokens text) :
      Written (width :: margin) .lineStart (dedent :: tokens) text

namespace Text

/-- Without carriage returns there is nothing to join. -/
theorem joinLineEnds_eq {text : List Char} (plain : '\r' ∉ text) : joinLineEnds text = text := by
  fun_induction joinLineEnds text with
  | case1 => rfl
  | case2 rest ih => simp at plain
  | case3 character rest _ ih => rw [ih (fun member => plain (List.mem_cons_of_mem _ member))]

/-- Without carriage returns a text is in one form already. -/
theorem unifyLineEnds_eq {text : List Char} (plain : '\r' ∉ text) : unifyLineEnds text = text := by
  unfold unifyLineEnds
  rw [joinLineEnds_eq plain]
  have same : ∀ character ∈ text, (if character = '\r' then '\n' else character) = character := by
    intro character member
    refine if_neg ?_
    rintro rfl
    exact plain member
  exact (List.map_congr_left same).trans (List.map_id _)

end Text

namespace Mark

/-- The marks that are tokens have these tokens. -/
theorem tokens_map (tokens : List Token) : (tokens.map Mark.token).filterMap token? = tokens := by
  rw [List.filterMap_map]
  exact List.filterMap_some

/-- The marks that are tokens have no faults. -/
theorem faults_map (tokens : List Token) : (tokens.map Mark.token).filterMap fault? = [] := by
  simp [List.filterMap_map, Function.comp_def, fault?]

end Mark

namespace Margin

/-- Blanks move the column and give no marks. -/
theorem read_blanks {blanks : List Char} (blank : Text.IsBlank blanks) (margin : Margin)
    (line : Nat) (column : Option Nat) (rest : List Char) :
    margin.read line column (Piece.cut 0 (blanks ++ rest)) =
      margin.read line (column.map (· + Text.blankWidth blanks)) (Piece.cut 0 rest) := by
  induction blanks generalizing column with
  | nil => cases column <;> rfl
  | cons character blanks ih =>
      have others : Text.IsBlank blanks := fun other member => blank other (List.mem_cons_of_mem _ member)
      rcases blank character List.mem_cons_self with rfl | rfl
      · refine (ih others (column.map (· + 1))).trans ?_
        cases column <;> simp [Text.blankWidth, Nat.add_assoc]
      · refine (ih others (column.map (· + 4))).trans ?_
        cases column <;> simp [Text.blankWidth, Nat.add_assoc]

/-- A piece with content is compared with the open blocks if it is the first of its line, and its line goes on
behind it. -/
theorem read_solid {piece : Piece} (solid : piece.IsSolid) (margin : Margin) (line : Nat)
    (column : Option Nat) (rest : List Piece) :
    margin.read line column (piece :: rest) =
      (match column with
        | some column => (margin.enter column line).2
        | none => []) ++ piece.marks line ++
      (match column with
        | some column => (margin.enter column line).1
        | none => margin).read (line + piece.lineEnds) none rest := by
  cases piece with
  | lineEnd | space | tab | comment => exact solid.elim
  | _ => cases column <;> rfl

/-- A token after blanks is read with the shift to its column if it is the first one of its line. -/
theorem read_token {token : Token} {blanks text : List Char} (spelled : token.Spelled)
    (solid : token.kind.IsWritten) (blank : Text.IsBlank blanks)
    (separates : Piece.Separates text) (margin : Margin) (line : Nat) :
    ∃ later,
      margin.read line none (Piece.cut 0 (blanks ++ (token.lexeme.toList ++ text))) =
        .token (token.onLine line) :: margin.read later none (Piece.cut 0 text) ∧
      margin.read line (some 0) (Piece.cut 0 (blanks ++ (token.lexeme.toList ++ text))) =
        (margin.enter (Text.blankWidth blanks) line).2 ++ .token (token.onLine line) ::
          (margin.enter (Text.blankWidth blanks) line).1.read later none (Piece.cut 0 text) := by
  obtain ⟨piece, gives⟩ := spelled.gives solid
  refine ⟨line + piece.lineEnds, ?_, ?_⟩
  · rw [read_blanks blank, gives.cut text separates, read_solid gives.solid, gives.marks]
    rfl
  · rw [read_blanks blank, gives.cut text separates, read_solid gives.solid, gives.marks,
      Option.map_some, Nat.zero_add, List.append_assoc]
    rfl

/-- Wider blocks are closed. -/
theorem close_append {pending margin : Margin} (wider : ∀ width ∈ pending, margin.width < width) :
    (pending ++ margin).close margin.width = margin := by
  induction pending with
  | nil =>
      cases margin with
      | nil => rfl
      | cons width margin => exact if_neg (Nat.lt_irrefl _)
  | cons width pending ih =>
      rw [List.cons_append, close, if_pos (wider width List.mem_cons_self)]
      exact ih fun other member => wider other (List.mem_cons_of_mem _ member)

/-- A line at the width of an open block closes the blocks inside of it. -/
theorem enter_close {pending margin : Margin} (wider : ∀ width ∈ pending, margin.width < width)
    (line : Nat) :
    (pending ++ margin).enter margin.width line =
      (margin, List.replicate pending.length (Mark.structural .dedent line)) := by
  have inside : ¬ (pending ++ margin).width < margin.width := by
    cases pending with
    | nil => exact Nat.lt_irrefl _
    | cons width pending => exact Nat.lt_asymm (wider width List.mem_cons_self)
  unfold enter
  rw [if_neg inside, close_append wider]
  simp

/-- A wider line opens a block. -/
theorem enter_open {margin : Margin} {width : Nat} (wider : margin.width < width) (line : Nat) :
    margin.enter width line = (width :: margin, [Mark.structural .indent line]) := by
  unfold enter
  rw [if_pos wider]

/-- Every open block is wider than the one around it. -/
def Ordered : Margin → Prop
  | [] => True
  | width :: enclosing => Margin.width enclosing < width ∧ Ordered enclosing

end Margin

namespace Token

/-- A token that ends no line is kept. -/
theorem joinNewlines_cons {token : Token} (other : token.kind ≠ .newline) (rest : List Token) :
    joinNewlines (token :: rest) = token :: joinNewlines rest := by
  cases rest with
  | nil => rfl
  | cons next rest => exact if_neg fun ends => other ends.1

/-- Tokens that end no line are kept. -/
theorem joinNewlines_append {tokens : List Token}
    (other : ∀ token ∈ tokens, token.kind ≠ .newline) (rest : List Token) :
    joinNewlines (tokens ++ rest) = tokens ++ joinNewlines rest := by
  induction tokens with
  | nil => rfl
  | cons token tokens ih =>
      have others := ih fun next member => other next (List.mem_cons_of_mem _ member)
      rw [List.cons_append, joinNewlines_cons (other token List.mem_cons_self), others,
        List.cons_append]

/-- A line end is kept before a token that neither ends a line nor opens a block. -/
theorem joinNewlines_keep {newline next : Token} {rest : List Token}
    (other : next.kind ∉ [.newline, .indent]) :
    joinNewlines (newline :: next :: rest) = newline :: joinNewlines (next :: rest) := by
  refine if_neg ?_
  rintro ⟨_, ends⟩
  exact other (by simpa using ends)

/-- A line end is kept before the first token of a line and the blocks that end there. -/
theorem joinNewlines_line {newline token : Token} (count line : Nat)
    (other : token.kind ∉ [.newline, .indent]) (rest : List Token) :
    joinNewlines (newline ::
        (List.replicate count (.structural .dedent line) ++ token :: rest)) =
      newline ::
        (List.replicate count (.structural .dedent line) ++ token :: joinNewlines rest) := by
  have dedents : ∀ dedent ∈ List.replicate count (structural .dedent line),
      dedent.kind ≠ .newline := by
    intro dedent member
    rw [List.eq_of_mem_replicate member, structural_kind]
    decide
  have kept : joinNewlines (newline ::
        (List.replicate count (.structural .dedent line) ++ token :: rest)) =
      newline :: joinNewlines
        (List.replicate count (.structural .dedent line) ++ token :: rest) := by
    cases count with
    | zero => exact joinNewlines_keep other
    | succ count => exact joinNewlines_keep (by rw [structural_kind]; decide)
  rw [kept, joinNewlines_append dedents, joinNewlines_cons (fun ends => other (by simp [ends]))]

/-- A line end before another one or before a block is left out. -/
theorem joinNewlines_drop {newline next : Token} {rest : List Token}
    (ends : newline.kind = .newline) (again : next.kind ∈ [.newline, .indent]) :
    joinNewlines (newline :: next :: rest) = joinNewlines (next :: rest) :=
  if_pos ⟨ends, by simpa using again⟩

/-- What follows from the lines is the same token but for its line. -/
theorem Spelled.unlined_eq {token : Token} (spelled : token.Spelled) {kind : Kind}
    (found : token.kind = kind) (bare : kind.spelling = "")
    (other : kind ∉ [.identifier, .number, .text]) :
    token.unlined = Token.structural kind 0 := by
  subst found
  obtain ⟨lexeme, plain⟩ := spelled.fixed other
  unfold unlined onLine structural
  rw [lexeme, bare, plain]

end Token

/-- The tokens that are laid out from the rest of a text. After a line end the blocks that are closed
already but still counted as open are pending. -/
def Slot.Scans (margin : Margin) (tokens : List Token) (text : List Char) : Slot → Prop
  | inLine => ∀ line, ∃ raw,
      margin.read line none (Piece.cut 0 text) = raw.map .token ∧
      (Token.joinNewlines raw).map Token.unlined =
        tokens.map Token.unlined ++ [Token.structural .endOfFile 0]
  | lineStart => ∀ (pending : Margin) line before, (∀ width ∈ pending, margin.width < width) →
      ∃ raw, (pending ++ margin).read line (some 0) (Piece.cut 0 text) = raw.map .token ∧
        (Token.joinNewlines (Token.structural .newline before :: raw)).map Token.unlined =
          Token.structural .newline 0 ::
            (List.replicate pending.length (Token.structural .dedent 0) ++
              (tokens.map Token.unlined ++ [Token.structural .endOfFile 0]))
  | blockStart => ∀ width (enclosing : Margin) line before, margin = width :: enclosing →
      ∃ raw, enclosing.read line (some 0) (Piece.cut 0 text) = raw.map .token ∧
        (Token.joinNewlines (Token.structural .newline before :: raw)).map Token.unlined =
          Token.structural .indent 0 ::
            (tokens.map Token.unlined ++ [Token.structural .endOfFile 0])

namespace Slot.Scans

variable {margin : Margin} {token : Token} {tokens : List Token} {blanks text : List Char}

/-- A token in a line is scanned behind its blanks. -/
theorem next (spelled : token.Spelled) (solid : token.kind.IsWritten)
    (blank : Text.IsBlank blanks) (separates : Piece.Separates text)
    (rest : inLine.Scans margin tokens text) :
    inLine.Scans margin (token :: tokens) (blanks ++ (token.lexeme.toList ++ text)) := by
  intro line
  obtain ⟨later, read, _⟩ := Margin.read_token spelled solid blank separates margin line
  obtain ⟨raw, ran, laid⟩ := rest later
  refine ⟨token.onLine line :: raw, ?_, ?_⟩
  · rw [read, ran]
    rfl
  · have other : (token.onLine line).kind ≠ .newline := solid.ne (by decide)
    rw [Token.joinNewlines_cons other, List.map_cons, laid, Token.unlined_onLine]
    rfl

/-- The first token of a line comes after the ends of the blocks that the line closes. -/
theorem firstOfLine (spelled : token.Spelled) (solid : token.kind.IsWritten)
    (blank : Text.IsBlank blanks) (aligned : Text.blankWidth blanks = margin.width)
    (separates : Piece.Separates text) (rest : inLine.Scans margin tokens text) :
    lineStart.Scans margin (token :: tokens) (blanks ++ (token.lexeme.toList ++ text)) := by
  intro pending line before wider
  obtain ⟨later, _, read⟩ :=
    Margin.read_token spelled solid blank separates (pending ++ margin) line
  obtain ⟨raw, ran, laid⟩ := rest later
  refine ⟨List.replicate pending.length (.structural .dedent line) ++ token.onLine line :: raw,
    ?_, ?_⟩
  · rw [read, aligned, Margin.enter_close wider, ran]
    simp [Mark.structural]
  · have other : (token.onLine line).kind ∉ [.newline, .indent] := by
      simp [Token.onLine_kind, solid.ne]
    rw [Token.joinNewlines_line _ _ other]
    simp [laid, Token.unlined_structural, Token.unlined_onLine]

/-- The first token of a block comes after its start. -/
theorem firstOfBlock (ordered : margin.Ordered) (spelled : token.Spelled)
    (solid : token.kind.IsWritten) (blank : Text.IsBlank blanks)
    (aligned : Text.blankWidth blanks = margin.width) (separates : Piece.Separates text)
    (rest : inLine.Scans margin tokens text) :
    blockStart.Scans margin (token :: tokens) (blanks ++ (token.lexeme.toList ++ text)) := by
  rintro width enclosing line before rfl
  obtain ⟨later, _, read⟩ := Margin.read_token spelled solid blank separates enclosing line
  obtain ⟨raw, ran, laid⟩ := rest later
  refine ⟨.structural .indent line :: token.onLine line :: raw, ?_, ?_⟩
  · have entered : enclosing.enter (Text.blankWidth blanks) line =
        (width :: enclosing, [Mark.structural .indent line]) := by
      rw [aligned]
      exact Margin.enter_open ordered.1 line
    rw [read, entered, ran]
    rfl
  · have opens : (Token.structural .indent line).kind ∈ [.newline, .indent] := by
      rw [Token.structural_kind]
      decide
    have indents : (Token.structural .indent line).kind ≠ .newline := by
      rw [Token.structural_kind]
      decide
    have other : (token.onLine line).kind ≠ .newline := solid.ne (by decide)
    rw [Token.joinNewlines_drop rfl opens, Token.joinNewlines_cons indents,
      Token.joinNewlines_cons other, List.map_cons, List.map_cons, laid, Token.unlined_onLine]
    rfl

/-- The end of a line is scanned before the next line. -/
theorem lineEnd {newline : Token} (spelled : newline.Spelled) (ends : newline.kind = .newline)
    (rest : lineStart.Scans margin tokens text) :
    inLine.Scans margin (newline :: tokens) ('\n' :: text) := by
  intro line
  obtain ⟨raw, ran, laid⟩ := rest [] (line + 1) line (by simp)
  refine ⟨.structural .newline line :: raw, ?_, ?_⟩
  · change .structural .newline line :: margin.read (line + 1) (some 0) (Piece.cut 0 text) = _
    rw [List.nil_append] at ran
    rw [ran]
    rfl
  · rw [laid, List.map_cons, spelled.unlined_eq ends rfl (by decide)]
    rfl

/-- A block starts behind the end of a line. -/
theorem block {width : Nat} {indent : Token} (spelled : indent.Spelled)
    (opens : indent.kind = .indent) (rest : blockStart.Scans (width :: margin) tokens text) :
    inLine.Scans margin (indent :: tokens) ('\n' :: text) := by
  intro line
  obtain ⟨raw, ran, laid⟩ := rest width margin (line + 1) line rfl
  refine ⟨.structural .newline line :: raw, ?_, ?_⟩
  · change .structural .newline line :: margin.read (line + 1) (some 0) (Piece.cut 0 text) = _
    rw [ran]
    rfl
  · rw [laid, List.map_cons, spelled.unlined_eq opens rfl (by decide)]
    rfl

/-- At the end of a text its last line ends and all blocks end. -/
theorem finished (margin : Margin) (line : Nat) :
    (Token.joinNewlines (.structural .newline line ::
      (List.replicate margin.length (.structural .dedent line) ++
        [.structural .endOfFile line]))).map Token.unlined =
      Token.structural .newline 0 ::
        (List.replicate margin.length (.structural .dedent 0) ++ [.structural .endOfFile 0]) := by
  have other : (Token.structural .endOfFile line).kind ∉ [.newline, .indent] := by
    rw [Token.structural_kind]
    decide
  rw [Token.joinNewlines_line _ _ other]
  simp [Token.joinNewlines, Token.unlined_structural]

/-- The last line may lack its end, and all blocks end with it. -/
theorem lastLine {newline : Token} {dedents : List Token} (spelled : newline.Spelled)
    (ends : newline.kind = .newline) (others : ∀ dedent ∈ dedents, dedent.Spelled)
    (closes : ∀ dedent ∈ dedents, dedent.kind = .dedent)
    (closed : dedents.length = margin.length) :
    inLine.Scans margin (newline :: dedents) [] := by
  intro line
  refine ⟨.structural .newline line ::
    (List.replicate margin.length (.structural .dedent line) ++ [.structural .endOfFile line]),
    ?_, ?_⟩
  · change margin.finish line = _
    simp [Margin.finish, Mark.structural]
  · have same : dedents.map Token.unlined =
        List.replicate margin.length (Token.structural .dedent 0) := by
      rw [List.eq_replicate_iff, List.length_map]
      refine ⟨closed, fun token member => ?_⟩
      obtain ⟨dedent, found, rfl⟩ := List.mem_map.mp member
      exact (others dedent found).unlined_eq (closes dedent found) rfl (by decide)
    rw [finished, List.map_cons, same, spelled.unlined_eq ends rfl (by decide)]
    rfl

/-- The end of a block waits for the line behind it. Blocks that end together are closed by one line. -/
theorem close {width : Nat} {dedent : Token} (narrower : margin.width < width)
    (spelled : dedent.Spelled) (closes : dedent.kind = .dedent)
    (rest : lineStart.Scans margin tokens text) :
    lineStart.Scans (width :: margin) (dedent :: tokens) text := by
  intro pending line before wider
  have pended : ∀ other ∈ pending ++ [width], margin.width < other := by
    intro other member
    rcases List.mem_append.mp member with early | late
    · exact Nat.lt_trans narrower (wider other early)
    · rw [List.mem_singleton.mp late]
      exact narrower
  obtain ⟨raw, ran, laid⟩ := rest (pending ++ [width]) line before pended
  refine ⟨raw, ?_, ?_⟩
  · rw [← ran, List.append_assoc]
    rfl
  · rw [laid, List.map_cons, spelled.unlined_eq closes rfl (by decide), List.length_append,
      List.length_singleton, List.replicate_succ', List.append_assoc]
    rfl

/-- A text may end at the start of a line. -/
theorem done : lineStart.Scans [] [] [] := by
  intro pending line before _
  refine ⟨.structural .newline line ::
    (List.replicate pending.length (.structural .dedent line) ++ [.structural .endOfFile line]),
    ?_, ?_⟩
  · change Margin.finish (pending ++ []) line = _
    simp [Margin.finish, Mark.structural]
  · have again : (Token.structural .newline line).kind ∈ [.newline, .indent] := by
      rw [Token.structural_kind]
      decide
    rw [Token.joinNewlines_drop rfl again, finished]
    rfl

end Slot.Scans

namespace Written

/-- What is written in a line separates tokens. -/
theorem separates {margin : Margin} {tokens : List Token} {text : List Char}
    (written : Written margin .inLine tokens text) : Piece.Separates text := by
  intro character member
  cases written with
  | first starts => exact absurd rfl starts
  | @next _ _ _ blanks _ _ blank apart _ =>
      obtain ⟨head, others, rfl⟩ := List.exists_cons_of_ne_nil apart
      cases member
      rcases blank character List.mem_cons_self with found | found
      · exact .inl found
      · exact .inr (.inl found)
  | lineEnd | block =>
      cases member
      exact .inr (.inr rfl)
  | lastLine => cases member

/-- A text in any slot is laid out to the tokens that it writes. -/
theorem scans {margin : Margin} {slot : Slot} {tokens : List Token} {text : List Char}
    (written : Written margin slot tokens text) (ordered : margin.Ordered)
    (spelled : ∀ token ∈ tokens, token.Spelled) : slot.Scans margin tokens text := by
  induction written with
  | done => exact .done
  | @first margin slot token tokens blanks text starts solid blank aligned rest ih =>
      have one := spelled token List.mem_cons_self
      have scanned := ih ordered fun other member => spelled other (List.mem_cons_of_mem _ member)
      cases slot with
      | lineStart => exact .firstOfLine one solid blank aligned rest.separates scanned
      | blockStart => exact .firstOfBlock ordered one solid blank aligned rest.separates scanned
      | inLine => exact absurd rfl starts
  | next solid blank apart rest ih =>
      have scanned := ih ordered fun other member => spelled other (List.mem_cons_of_mem _ member)
      exact .next (spelled _ List.mem_cons_self) solid blank rest.separates scanned
  | lineEnd ends rest ih =>
      have scanned := ih ordered fun other member => spelled other (List.mem_cons_of_mem _ member)
      exact .lineEnd (spelled _ List.mem_cons_self) ends scanned
  | lastLine ends closes closed =>
      exact .lastLine (spelled _ List.mem_cons_self) ends
        (fun other member => spelled other (List.mem_cons_of_mem _ member)) closes closed
  | block opens wider rest ih =>
      have scanned := ih ⟨wider, ordered⟩
        fun other member => spelled other (List.mem_cons_of_mem _ member)
      exact .block (spelled _ List.mem_cons_self) opens scanned
  | close closes rest ih =>
      have scanned := ih ordered.2 fun other member => spelled other (List.mem_cons_of_mem _ member)
      exact .close ordered.1 (spelled _ List.mem_cons_self) closes scanned

/-- No carriage return is written. -/
theorem no_return {margin : Margin} {slot : Slot} {tokens : List Token} {text : List Char}
    (written : Written margin slot tokens text) (spelled : ∀ token ∈ tokens, token.Spelled) :
    '\r' ∉ text := by
  have blanks {text : List Char} (blank : Text.IsBlank text) : '\r' ∉ text :=
    fun member => absurd (blank _ member) (by decide)
  induction written with
  | done | lastLine => exact List.not_mem_nil
  | first _ _ blank _ _ ih | next _ blank _ _ ih =>
      have one := (spelled _ List.mem_cons_self).no_return
      have others := ih fun other member => spelled other (List.mem_cons_of_mem _ member)
      simp [blanks blank, one, others]
  | lineEnd _ _ ih | block _ _ _ ih =>
      have others := ih fun other member => spelled other (List.mem_cons_of_mem _ member)
      simp [others]
  | close _ _ ih => exact ih fun other member => spelled other (List.mem_cons_of_mem _ member)

/-- A written text is scanned without faults to the tokens that it writes, and the end of the file. -/
theorem scan_eq {tokens : List Token} {source : String}
    (written : Written [] .lineStart tokens source.toList)
    (spelled : ∀ token ∈ tokens, token.Spelled) :
    ∃ laid, Token.scan source = (laid, []) ∧
      laid.map Token.unlined = tokens.map Token.unlined ++ [Token.structural .endOfFile 0] := by
  have unified := Text.unifyLineEnds_eq (written.no_return spelled)
  unfold Token.scan Token.read Mark.ofSource Piece.ofSource
  rw [unified]
  generalize source.toList = text at written
  cases written with
  | done => exact ⟨[.structural .endOfFile 1], rfl, rfl⟩
  | @first _ _ token tokens blanks text _ solid blank _ rest =>
      have one := spelled token List.mem_cons_self
      have scanned := rest.scans trivial
        fun other member => spelled other (List.mem_cons_of_mem _ member)
      obtain ⟨later, read, _⟩ := Margin.read_token one solid blank rest.separates [] 1
      obtain ⟨raw, ran, laid⟩ := scanned later
      have other : (token.onLine 1).kind ≠ .newline := solid.ne (by decide)
      refine ⟨Token.layout (token.onLine 1 :: raw), ?_, ?_⟩
      · rw [read, ran, ← List.map_cons]
        dsimp only
        rw [Mark.tokens_map, Mark.faults_map]
      · unfold Token.layout
        rw [List.dropWhile_cons_of_neg (by simpa using other), Token.joinNewlines_cons other,
          List.map_cons, laid]
        rfl

end Written

end OffsideScript
