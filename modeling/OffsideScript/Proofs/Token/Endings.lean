/-
This file says which line the end of a statement stands on. Of the line ends behind a statement the last
one is kept, so the end stands right above what follows. A mistake that is found at the end of a line is
reported there, and one more line moves it.
-/

import OffsideScript.Proofs.Token.BlockLines
import OffsideScript.Proofs.Token.IdleLines

namespace OffsideScript

namespace Token

/-- The line on which the lexeme ends. -/
def lastLine (token : Token) : Nat :=
  token.line + token.lexeme.toList.count '\n'

/-- A token ends before or on the line of a later one. -/
def Above (first second : Token) : Prop :=
  first.lastLine ≤ second.line

/-- The end of a line stands right above what follows. At the end of a text nothing but the ends of blocks
and of the file follow, on the last line. -/
def EndsAbove (total : Nat) (newline next : Token) : Prop :=
  next.line = newline.line + 1 ∨
    next.line = newline.line ∧ newline.line = total ∧ next.kind ∈ [.dedent, .endOfFile]

/-- A line end stands right above what follows, unless this is another line end. -/
def Adjoins (total : Nat) (first second : Token) : Prop :=
  first.kind = .newline → second.kind ≠ .newline → first.EndsAbove total second

end Token

namespace Piece

/-- The tokens of a piece end on its last line. -/
theorem marks_lastLine (piece : Piece) (line : Nat) :
    ∀ token ∈ (piece.marks line).filterMap Mark.token?, token.lastLine = line + piece.lineEnds := by
  intro token member
  cases piece <;> simp_all [marks, Mark.token?, Token.lastLine, lineEnds, text]

/-- The pieces that are faults. -/
def IsFaulty : Piece → Prop
  | unclosed _ | stray _ => True
  | _ => False

/-- A piece that gives a fault is faulty. -/
theorem isFaulty_of_marks {piece : Piece} {line : Nat} {error : LexicalError}
    (gives : piece.marks line = [.fault error]) : piece.IsFaulty := by
  cases piece with
  | unclosed | stray => trivial
  | _ => cases gives

/-- A faulty piece stays on its line, or it is the last piece. -/
def KeepsLine (pieces : List Piece) : Prop :=
  ∀ piece rest, piece :: rest <:+ pieces → piece.IsFaulty → piece.lineEnds = 0 ∨ rest = []

/-- The pieces behind the first keep their lines. -/
theorem KeepsLine.tail {piece : Piece} {rest : List Piece} (keeps : KeepsLine (piece :: rest)) :
    KeepsLine rest :=
  fun other others suffix => keeps other others (suffix.trans (List.suffix_cons _ _))

/-- The faulty pieces of a text stay on their lines. -/
theorem cut_keepsLine (text : List Char) : KeepsLine (cut 0 text) := by
  induction text using cut_induction with
  | empty =>
      intro piece rest suffix
      cases List.suffix_nil.mp suffix
  | step character covered after text whole ih =>
      intro piece rest suffix faulty
      rw [whole] at suffix
      rcases List.suffix_cons_iff.mp suffix with same | later
      · obtain ⟨rfl, rfl⟩ := List.cons.inj same
        by_cases quote : character = '\''
        · subst quote
          obtain ⟨content, _, ⟨closed, _⟩ | ⟨unclosed, whole⟩⟩ := startingAt_quote (covered ++ after)
          · rw [closed] at faulty
            exact faulty.elim
          · rw [unclosed] at text
            obtain rfl : content = covered := (List.cons.inj text).2
            rw [List.append_right_eq_self.mp whole]
            exact .inr rfl
        · have other : character ∉ ['\n', ' ', '\t', '#', '\''] := by
            intro member
            simp only [List.mem_cons, List.not_mem_nil, or_false] at member
            rcases member with rfl | rfl | rfl | rfl | rfl
            · exact faulty
            · exact faulty
            · exact faulty
            · exact faulty
            · exact quote rfl
          have plain := (startingAt_plain other (covered ++ after)).2
          exact .inl (List.count_eq_zero.mpr plain.short)
      · exact ih piece rest later faulty

end Piece

namespace Margin

/-- What stands at the end of a text ends on its last line. -/
theorem finish_lastLine (margin : Margin) (line : Nat) :
    ∀ token ∈ (margin.finish line).filterMap Mark.token?, token.line = line ∧ token.lastLine = line := by
  intro token member
  obtain ⟨kind, _, same⟩ := margin.finish_structural line _ (Mark.mem_tokens.mp member)
  cases same
  exact ⟨rfl, rfl⟩

/-- What stands at the start of a line ends on it. -/
theorem enter_lastLine (margin : Margin) (column line : Nat) :
    ∀ token ∈ (margin.enter column line).2.filterMap Mark.token?, token.lastLine = line := by
  rw [enter_tokens]
  intro token member
  split at member
  · rw [List.mem_singleton.mp member]
    rfl
  · rw [List.eq_of_mem_replicate member]
    rfl

/-- The tokens at the start of a line stand on it and end no line. -/
theorem read_solid_tokens {piece : Piece} (solid : piece.IsSolid) (margin : Margin) (line : Nat)
    (column : Option Nat) (rest : List Piece) :
    ∃ (early : List Token) (after : Margin),
      (margin.read line column (piece :: rest)).filterMap Mark.token? =
        early ++ ((piece.marks line).filterMap Mark.token? ++
          (after.read (line + piece.lineEnds) none rest).filterMap Mark.token?) ∧
      ∀ token ∈ early, token.OnLine line ∧ token.lastLine = line := by
  rw [read_solid solid, List.append_assoc, List.filterMap_append, List.filterMap_append]
  cases column with
  | none => exact ⟨_, _, rfl, fun token member => absurd member List.not_mem_nil⟩
  | some column =>
      exact ⟨_, _, rfl, fun token member =>
        ⟨margin.enter_line column line token member, margin.enter_lastLine column line token member⟩⟩

variable {pieces : List Piece} (proper : ∀ piece ∈ pieces, piece.IsProper)
include proper

/-- Each token ends above those behind it. -/
theorem read_above (line : Nat) (column : Option Nat) (margin : Margin) :
    ((margin.read line column pieces).filterMap Mark.token?).Pairwise Token.Above := by
  have together {tokens : List Token} {line : Nat}
      (here : ∀ token ∈ tokens, token.line = line ∧ token.lastLine = line) :
      tokens.Pairwise Token.Above := by
    apply List.pairwise_of_forall_mem_list
    intro first one second two
    unfold Token.Above
    rw [(here first one).2, (here second two).1]
  revert margin
  apply Piece.reading_induction ?finish ?lineEnd ?silent ?solid proper line column
  case finish =>
    intro line column margin
    exact together (margin.finish_lastLine line)
  case lineEnd =>
    intro line column rest others later margin
    apply List.Pairwise.cons _ (later margin)
    intro token member
    have below := margin.read_line_le others (line + 1) (some 0) token member
    show line ≤ token.line
    omega
  case silent =>
    intro piece line column shifted rest _ _ reads _ later margin
    rw [reads]
    exact later margin
  case solid =>
    intro piece line column rest solid here others later margin
    obtain ⟨early, after, tokens, starts⟩ := margin.read_solid_tokens solid line column rest
    have own := solid.line_of_mem here line
    have below := after.read_line_le others (line + piece.lineEnds) none
    rw [tokens]
    apply List.pairwise_append.mpr
    refine ⟨together fun token member => ⟨(starts token member).1.1, (starts token member).2⟩,
      List.pairwise_append.mpr ⟨?_, later after, ?_⟩, ?_⟩
    · obtain ⟨mark, gives, _⟩ := solid.marks_line line
      rw [gives]
      cases mark with
      | token read => exact List.pairwise_singleton _ read
      | fault error => exact List.Pairwise.nil
    · intro first one second two
      have ends := piece.marks_lastLine line first one
      have bound := below second two
      unfold Token.Above
      omega
    · intro first one second two
      have ends := (starts first one).2
      unfold Token.Above
      rcases List.mem_append.mp two with same | next
      · rw [ends, (own second same).1]
      · have bound := below second next
        omega

/-- What is read first stands on the line that reading starts on, unless a line ends there. -/
theorem read_head (line : Nat) (column : Option Nat) (keeps : Piece.KeepsLine pieces) (margin : Margin) :
    ∀ token ∈ ((margin.read line column pieces).filterMap Mark.token?).head?,
      token.kind = .newline ∨ token.line = line := by
  revert keeps margin
  apply Piece.reading_induction ?finish ?lineEnd ?silent ?solid proper line column
  case finish =>
    rintro line column _ margin token ⟨⟩
    exact .inl rfl
  case lineEnd =>
    rintro line column rest _ _ _ margin token ⟨⟩
    exact .inl rfl
  case silent =>
    intro piece line column shifted rest _ _ reads _ later keeps margin
    rw [reads]
    exact later keeps.tail margin
  case solid =>
    intro piece line column rest solid here others later keeps margin token first
    obtain ⟨early, after, tokens, starts⟩ := margin.read_solid_tokens solid line column rest
    rw [tokens] at first
    cases early with
    | cons head early =>
        cases first
        exact .inr (starts token List.mem_cons_self).1.1
    | nil =>
        obtain ⟨mark, gives, _⟩ := solid.marks_line line
        have own := solid.line_of_mem here line
        rw [gives] at first own
        cases mark with
        | token found =>
            cases first
            exact .inr (own token (List.mem_singleton_self _)).1
        | fault error =>
            rcases keeps piece rest List.suffix_rfl (Piece.isFaulty_of_marks gives) with short | rfl
            · rw [short] at first later
              exact later keeps.tail after token first
            · cases first
              exact .inl rfl

/-- Line ends adjoin what follows them. -/
theorem read_adjoins (line : Nat) (column : Option Nat) (keeps : Piece.KeepsLine pieces)
    (margin : Margin) :
    ((margin.read line column pieces).filterMap Mark.token?).IsChain
      (Token.Adjoins (line + (pieces.flatMap Piece.text).count '\n')) := by
  revert keeps margin
  apply Piece.reading_induction ?finish ?lineEnd ?silent ?solid proper line column
  case finish =>
    intro line column _ margin
    show ((margin.finish line).filterMap Mark.token?).IsChain (Token.Adjoins line)
    rw [margin.finish_tokens]
    have closing : (List.replicate margin.length (Token.structural .dedent line) ++
        [Token.structural .endOfFile line]).IsChain (Token.Adjoins line) := by
      apply Token.isChain_append (fun other ends => absurd ends other)
      · intro token member
        rw [List.eq_of_mem_replicate member]
        exact Token.Kind.noConfusion
      · exact .singleton _
    apply closing.cons
    intro next first _ _
    rcases List.mem_append.mp (List.mem_of_mem_head? first) with closes | finishes
    · rw [List.eq_of_mem_replicate closes]
      exact .inr ⟨rfl, rfl, List.mem_cons_self⟩
    · rw [List.mem_singleton.mp finishes]
      exact .inr ⟨rfl, rfl, List.mem_cons_of_mem _ (List.mem_singleton_self _)⟩
  case lineEnd =>
    intro line column rest others later keeps margin
    rw [List.flatMap_cons, List.count_append, ← Nat.add_assoc]
    apply (later keeps.tail margin).cons
    intro next first _ inside
    rcases margin.read_head others (line + 1) (some 0) keeps.tail next first with ends | here
    · exact absurd ends inside
    · exact .inl here
  case silent =>
    intro piece line column shifted rest short _ reads _ later keeps margin
    have same : line + ((piece :: rest).flatMap Piece.text).count '\n' =
        line + (rest.flatMap Piece.text).count '\n' := by
      unfold Piece.lineEnds at short
      rw [List.flatMap_cons, List.count_append]
      omega
    rw [reads, same]
    exact later keeps.tail margin
  case solid =>
    intro piece line column rest solid here others later keeps margin
    obtain ⟨early, after, tokens, starts⟩ := margin.read_solid_tokens solid line column rest
    have own := solid.line_of_mem here line
    have free {first second : Token} (other : first.kind ≠ .newline) :
        Token.Adjoins (line + ((piece :: rest).flatMap Piece.text).count '\n') first second :=
      fun ends => absurd ends other
    have rest := later keeps.tail after
    rw [tokens]
    apply Token.isChain_append free (fun token member => (starts token member).1.2)
    apply Token.isChain_append free (fun token member => (own token member).2)
    rw [List.flatMap_cons, List.count_append, ← Nat.add_assoc]
    exact rest

end Margin

namespace Token

/-- After line ends are joined, each stands right above what follows. -/
theorem joinNewlines_endsAbove {total : Nat} {tokens : List Token}
    (chain : tokens.IsChain (Adjoins total)) :
    (joinNewlines tokens).IsChain fun first second =>
      first.kind = .newline → first.EndsAbove total second := by
  fun_induction joinNewlines tokens with
  | case1 => exact .nil
  | case2 token => exact .singleton token
  | case3 token next rest _ ih => exact ih chain.tail
  | case4 token next rest kept ih =>
      apply (ih chain.tail).cons
      intro first known ends
      have other : next.kind ≠ .newline := fun again => kept ⟨ends, .inl again⟩
      rw [joinNewlines_cons other] at known
      cases known
      exact (List.isChain_cons_cons.mp chain).1 ends other

/-- In a scanned text each line end stands right above what follows. -/
theorem scan_endsAbove (source : String) :
    (scan source).1.IsChain fun first second =>
      first.kind = .newline → first.EndsAbove (Text.lineEnds source.toList + 1) second := by
  have chain := Margin.read_adjoins (Piece.cut_proper (Text.unifyLineEnds source.toList)) 1 none
    (Piece.cut_keepsLine _) []
  rw [Piece.cut_text, Nat.add_comm] at chain
  exact joinNewlines_endsAbove (chain.suffix (List.dropWhile_suffix _))

/-- In a scanned text each token ends above those behind it. -/
theorem scan_above (source : String) : (scan source).1.Pairwise Above := by
  have ordered := Margin.read_above (Piece.cut_proper (Text.unifyLineEnds source.toList)) 1 none []
  apply List.Pairwise.sublist _ ordered
  exact (joinNewlines_sublist _).trans (List.dropWhile_sublist _)

/-- Only a line end is located at the end of its line. -/
theorem kind_of_endOfLine {token : Token} (located : token.location = .endOfLine) :
    token.kind = .newline := by
  unfold location at located
  split at located <;> simp_all

/-- Only a written token is located by its lexeme. -/
theorem written_of_lexeme {token : Token} {text : String} (located : token.location = .lexeme text) :
    token.kind.IsWritten := by
  unfold location at located
  split at located <;> simp_all [Kind.IsWritten]

section Alike

variable {relation : Token → Token → Prop}
  (kinds : ∀ {first second : Token}, relation first second → second.kind = first.kind)
  {tokens others : List Token} (alike : List.Forall₂ relation tokens others)
include kinds alike

/-- Line ends are joined by their kinds only. -/
theorem joinNewlines_forall₂ : List.Forall₂ relation (joinNewlines tokens) (joinNewlines others) := by
  induction alike with
  | nil => exact .nil
  | cons here rest ih =>
      cases rest with
      | nil => exact .cons here .nil
      | cons next rest =>
          rw [joinNewlines, joinNewlines, kinds here, kinds next]
          split
          · exact ih
          · exact .cons here ih

/-- The layout looks at kinds only. -/
theorem layout_forall₂ : List.Forall₂ relation (layout tokens) (layout others) := by
  apply joinNewlines_forall₂ kinds
  induction alike with
  | nil => exact .nil
  | cons here rest ih =>
      rw [List.dropWhile_cons, List.dropWhile_cons, kinds here]
      split
      · exact ih
      · exact .cons here rest

end Alike

/-- What becomes of a token if one more line follows a line. Above this line nothing moves and below it
everything does. Of what stands on it a line end moves, and what is written stays. -/
def PushedBy (line : Nat) (token moved : Token) : Prop :=
  moved.unlined = token.unlined ∧
    (moved.line = token.line ∧ (token.line < line ∨ token.line = line ∧ token.kind ≠ .newline) ∨
      moved.line = token.line + 1 ∧ (line < token.line ∨ token.line = line ∧ ¬token.kind.IsWritten))

/-- A token that is pushed keeps its kind. -/
theorem PushedBy.kind {line : Nat} {token moved : Token} (pushed : token.PushedBy line moved) :
    moved.kind = token.kind := by
  show moved.unlined.kind = token.unlined.kind
  rw [pushed.1]

/-- A token is pushed by one line. -/
theorem pushedBy_pushed (line : Nat) (token : Token) : token.PushedBy line (token.pushed line) := by
  refine ⟨pushed_unlined line token, ?_⟩
  unfold pushed
  split
  · next stays => exact .inl ⟨rfl, stays⟩
  · next moves =>
      refine .inr ⟨rfl, ?_⟩
      obtain ⟨reached, ends⟩ := not_or.mp moves
      rcases Nat.lt_or_eq_of_le (Nat.le_of_not_lt reached) with below | here
      · exact .inl below
      · have newline : token.kind = .newline := by
          by_contra other
          exact ends ⟨here.symm, other⟩
        rw [newline]
        exact .inr ⟨here.symm, by decide⟩

end Token

/-- What becomes of an error if one more line follows a line. Above this line nothing moves and below it
everything does. Of what stands on it, an error at its end moves, and one at a lexeme stays. -/
def GrammarError.PushedBy (line : Nat) (error moved : GrammarError) : Prop :=
  moved.reason = error.reason ∧ moved.location = error.location ∧
    (moved.line = error.line ∧ (error.line < line ∨ error.line = line ∧ error.location ≠ .endOfLine) ∨
      moved.line = error.line + 1 ∧
        (line < error.line ∨ error.line = line ∧ ∀ text, error.location ≠ .lexeme text))

/-- A mistake is pushed with its token. -/
theorem Token.PushedBy.at {line : Nat} {token moved : Token} (pushed : token.PushedBy line moved)
    (reason : GrammarError.Reason) :
    (GrammarError.at token reason).PushedBy line (GrammarError.at moved reason) := by
  obtain ⟨same, lines⟩ := pushed
  have located : moved.location = token.location := by
    show moved.unlined.location = token.unlined.location
    rw [same]
  refine ⟨rfl, located, ?_⟩
  rcases lines with ⟨stays, above | ⟨here, inside⟩⟩ | ⟨moves, below | ⟨here, structural⟩⟩
  · exact .inl ⟨stays, .inl above⟩
  · exact .inl ⟨stays, .inr ⟨here, fun ends => inside (kind_of_endOfLine ends)⟩⟩
  · exact .inr ⟨moves, .inl below⟩
  · exact .inr ⟨moves, .inr ⟨here, fun text shown => structural (written_of_lexeme shown)⟩⟩

/-- A text with one more line behind another one that does not end in quotes: an idle line, or the end of
the last line. -/
def Text.AddsLine (before text longer : List Char) : Prop :=
  zone before ≠ .quote ∧
    (text = before ∧ longer = before ++ ['\n'] ∨
      ∃ idle after, IsIdle idle ∧ text = before ++ '\n' :: after ∧
        longer = before ++ '\n' :: (idle ++ '\n' :: after))

/-- A text that ends one line further down has its last marks there. -/
theorem Margin.finish_pushedBy (margin : Margin) (line : Nat) :
    List.Forall₂ (Token.PushedBy line) ((margin.finish line).filterMap Mark.token?)
      ((margin.finish (line + 1)).filterMap Mark.token?) := by
  have lowered : (margin.finish (line + 1)).filterMap Mark.token? =
      ((margin.finish line).filterMap Mark.token?).map (Token.lower 1) := by
    rw [margin.finish_tokens, margin.finish_tokens, List.map_cons, List.map_append, List.map_replicate]
    rfl
  rw [lowered]
  apply List.forall₂_map_right_iff.mpr
  apply List.forall₂_same.mpr
  intro token member
  obtain ⟨kind, structural, same⟩ := margin.finish_structural line _ (Mark.mem_tokens.mp member)
  cases same
  exact ⟨rfl, .inr ⟨rfl, .inr ⟨rfl, structural⟩⟩⟩

namespace Token

/-- The end of the last line is read again at the end of the text, which counts. -/
theorem layout_final {text : List Char} (outside : Text.zone text ≠ .quote) :
    List.Forall₂ (PushedBy (text.count '\n' + 1)) (layout (read text).1)
      (layout (read (text ++ ['\n'])).1) := by
  obtain ⟨early, margin, bounds, short, long⟩ := Mark.ofSource_outside outside
  generalize text.count '\n' + 1 = line at *
  have kept : List.Forall₂ (PushedBy line) (early.filterMap Mark.token?) (early.filterMap Mark.token?) := by
    apply List.forall₂_same.mpr
    intro token member
    obtain ⟨bound, strict⟩ := bounds _ (Mark.mem_tokens.mp member)
    have same := Mark.token.inj (Mark.pushed_before bound strict)
    have stays := pushedBy_pushed line token
    rwa [same] at stays
  have few : (read text).1 =
      early.filterMap Mark.token? ++ (margin.finish line).filterMap Mark.token? := by
    show (Mark.ofSource text).filterMap Mark.token? = _
    rw [short, List.filterMap_append]
  have many : (read (text ++ ['\n'])).1 = early.filterMap Mark.token? ++
      structural .newline line :: (margin.finish (line + 1)).filterMap Mark.token? := by
    show (Mark.ofSource (text ++ ['\n'])).filterMap Mark.token? = _
    rw [long [], List.filterMap_append]
    rfl
  have whole := layout_forall₂ PushedBy.kind (List.rel_append kept (margin.finish_pushedBy line))
  rw [few, many]
  rw [margin.finish_tokens (line + 1)] at whole ⊢
  rwa [layout_double rfl rfl]

/-- One more line pushes the tokens of a text. -/
theorem layout_addsLine {before text longer : List Char} (adds : Text.AddsLine before text longer) :
    List.Forall₂ (PushedBy (before.count '\n' + 1)) (layout (read text).1) (layout (read longer).1) := by
  obtain ⟨outside, ⟨rfl, rfl⟩ | ⟨idle, after, isIdle, rfl, rfl⟩⟩ := adds
  · exact layout_final outside
  · rw [layout_idle outside isIdle after]
    apply List.forall₂_map_right_iff.mpr
    apply List.forall₂_same.mpr
    intro token _
    exact pushedBy_pushed _ token

end Token

/-- The errors of pushed tokens are pushed. -/
theorem Program.ofTokens_pushedBy {line : Nat} {tokens moved : List Token}
    (pushed : List.Forall₂ (Token.PushedBy line) tokens moved)
    (ended : ∃ token ∈ tokens, token.kind = .endOfFile) :
    List.Forall₂ (GrammarError.PushedBy line) (ofTokens tokens).2 (ofTokens moved).2 := by
  have unlined : tokens.map Token.unlined = moved.map Token.unlined := by
    have each := pushed.imp fun token moved pushed => pushed.1.symm
    rw [← List.forall₂_eq_eq_eq]
    apply List.forall₂_map_left_iff.mpr
    exact List.forall₂_map_right_iff.mpr each
  apply (ofTokens_unlined unlined ended).2.imp
  rintro _ _ ⟨place, member, reason, rfl, rfl⟩
  exact ((List.forall₂_iff_zip.mp pushed).2 member).at reason

namespace Token

/-- Every line end has something behind it. -/
theorem exists_after_newline {source : String} {newline : Token} (member : newline ∈ (scan source).1)
    (ends : newline.kind = .newline) :
    ∃ before next after, (scan source).1 = before ++ newline :: next :: after := by
  obtain ⟨body, last, shape, finishes, _⟩ :=
    (layout_formsBlocks (Text.unifyLineEnds source.toList)).finished
  have whole : (scan source).1 = body ++ [last] := shape
  rw [whole] at member
  rcases List.mem_append.mp member with inside | final
  · obtain ⟨before, after, rfl⟩ := List.append_of_mem inside
    rw [whole]
    cases after with
    | nil => exact ⟨before, last, [], by simp⟩
    | cons next after => exact ⟨before, next, after ++ [last], by simp⟩
  · rw [List.mem_singleton.mp final, finishes] at ends
    cases ends

/-- The end of a line stands below everything in front of it and right above what follows, so at the end of
a text on the last line. A mistake at the end of a line is reported on the line of this end, and one more
line behind it moves it down. -/
theorem scan_line_ends (source : String) :
    (∀ before newline next after, (scan source).1 = before ++ newline :: next :: after →
      newline.kind = .newline →
        (∀ token ∈ before, token.lastLine ≤ newline.line) ∧
          newline.EndsAbove (Text.lineEnds source.toList + 1) next) ∧
      (∀ error ∈ (Program.ofTokens (scan source).1).2, error.location = .endOfLine →
        ∃ before newline next after, (scan source).1 = before ++ newline :: next :: after ∧
          newline.kind = .newline ∧ error.line = newline.line) ∧
      (∀ (longer : String) (before : List Char),
        Text.AddsLine before (Text.unifyLineEnds source.toList) (Text.unifyLineEnds longer.toList) →
          List.Forall₂ (GrammarError.PushedBy (before.count '\n' + 1))
            (Program.ofTokens (scan source).1).2 (Program.ofTokens (scan longer).1).2) := by
  refine ⟨fun before newline next after whole ends => ⟨?_, ?_⟩, fun error found located => ?_,
    fun longer before adds => ?_⟩
  · have ordered := scan_above source
    rw [whole] at ordered
    intro token member
    exact (List.pairwise_append.mp ordered).2.2 token member newline List.mem_cons_self
  · have chain := scan_endsAbove source
    exact List.isChain_iff_forall_rel_of_append_cons_cons.mp chain whole ends
  · obtain ⟨token, member, reason, rfl⟩ := Program.ofTokens_located (scan_ended source) error found
    have ends := kind_of_endOfLine located
    obtain ⟨before, next, after, whole⟩ := exists_after_newline member ends
    exact ⟨before, token, next, after, whole, ends, rfl⟩
  · exact Program.ofTokens_pushedBy (layout_addsLine adds) (scan_ended source)

/-- A comment behind a statement with an open bracket moves its mistake to the line of the comment. -/
theorem scan_line_ends_comment :
    Text.AddsLine "print (1".toList "print (1\nprint 2".toList "print (1\n# c\nprint 2".toList ∧
      (Program.ofTokens (scan "print (1\nprint 2").1).2 = [⟨1, .endOfLine, .groupEnd⟩] ∧
      (Program.ofTokens (scan "print (1\n# c\nprint 2").1).2 = [⟨2, .endOfLine, .groupEnd⟩] ∧
      List.Forall₂ (GrammarError.PushedBy 1) (Program.ofTokens (scan "print (1\nprint 2").1).2
        (Program.ofTokens (scan "print (1\n# c\nprint 2").1).2 ∧
      ∃ before newline next after,
        (scan "print (1\n# c\nprint 2").1 = before ++ newline :: next :: after ∧ newline.line = 2 ∧
          (∀ token ∈ before, token.lastLine ≤ 2) ∧ newline.EndsAbove 3 next := by
  have adds : Text.AddsLine "print (1".toList "print (1\nprint 2".toList
      "print (1\n# c\nprint 2".toList :=
    ⟨by decide, .inr ⟨"# c".toList, "print 2".toList,
      ⟨[], "# c".toList, rfl, List.forall_mem_nil _, .inr ⟨" c".toList, rfl, by decide⟩⟩, rfl, rfl⟩⟩
  have short : (Program.ofTokens (scan "print (1\nprint 2").1).2 = [⟨1, .endOfLine, .groupEnd⟩] := by
    decide +kernel
  have long : (Program.ofTokens (scan "print (1\n# c\nprint 2").1).2 =
      [⟨2, .endOfLine, .groupEnd⟩] := by
    decide +kernel
  have pushed := (scan_line_ends "print (1\nprint 2").2.2 "print (1\n# c\nprint 2" _ adds
  obtain ⟨stands, located, _⟩ := scan_line_ends "print (1\n# c\nprint 2"
  obtain ⟨before, newline, next, after, whole, ends, line⟩ :=
    located _ (long ▸ List.mem_singleton_self _) rfl
  obtain ⟨below, above⟩ := stands before newline next after whole ends
  rw [← line] at below
  exact ⟨adds, short, long, pushed, before, newline, next, after, whole, line.symm, below, above⟩

/-- With its line end, a statement has its mistake on the line behind it. -/
theorem scan_ends_line_late :
    (Program.ofTokens (scan "print (1").1).2 = [⟨1, .endOfLine, .groupEnd⟩] ∧
      (Program.ofTokens (scan "print (1\n").1).2 = [⟨2, .endOfLine, .groupEnd⟩] := by
  decide +kernel

end Token

end OffsideScript
