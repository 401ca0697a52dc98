import OffsideScript.Proofs.Grammar.Walk
import OffsideScript.Proofs.Token.Nesting

namespace OffsideScript

namespace Token

/-- A block that is skipped is skipped as a whole if enough blocks end behind its start. -/
theorem skipBlock_count {depth : Nat} (inside : 0 < depth) {tokens : List Token}
    (enough : indents tokens + depth ≤ dedents tokens) :
    dedents (skipBlock depth tokens) + (indents tokens + depth) =
      indents (skipBlock depth tokens) + dedents tokens := by
  induction tokens generalizing depth with
  | nil =>
      simp only [indents_nil, dedents_nil] at enough
      omega
  | cons token rest ih =>
      simp only [indents_cons, dedents_cons] at enough ⊢
      unfold skipBlock
      split
      · next opens =>
          simp only [opens, reduceIte, reduceCtorEq] at enough ⊢
          have counts := @ih (depth + 1) (by omega) (by omega)
          omega
      · next closes =>
          simp only [closes, reduceIte, reduceCtorEq] at enough ⊢
          split
          · omega
          · have counts := @ih (depth - 1) (by omega) (by omega)
            omega
      · next opens closes =>
          simp only [if_neg opens, if_neg closes] at enough ⊢
          have counts := ih inside (by omega)
          omega

/-- Skipping the rest of a broken statement takes no end away from the blocks around it. -/
theorem synchronize_spare {tokens : List Token} {blocks : Nat}
    (ends : ∀ rest, rest <:+ tokens → indents rest ≤ dedents rest)
    (spare : indents tokens + blocks ≤ dedents tokens) :
    indents (synchronize tokens) + blocks ≤ dedents (synchronize tokens) := by
  induction tokens with
  | nil => exact spare
  | cons token rest ih =>
      have whole := ends (token :: rest) List.suffix_rfl
      have behind := ih fun shorter suffix => ends shorter (suffix.trans (List.suffix_cons _ _))
      simp only [indents_cons, dedents_cons] at spare whole
      unfold synchronize
      cases kind : token.kind with
      | newline =>
          simp only [kind, reduceIte, reduceCtorEq] at spare
          simpa using spare
      | indent =>
          simp only [kind, reduceIte, reduceCtorEq] at spare whole
          have skipped : skipBlock 0 (token :: rest) = skipBlock 1 rest := by
            rw [skipBlock, kind]
          have counts := @skipBlock_count 1 Nat.one_pos rest (by omega)
          dsimp only
          rw [skipped]
          omega
      | dedent | ifWord | funcWord | retWord | letWord | whileWord | printWord =>
          simpa only [indents_cons, dedents_cons] using spare
      | _ =>
          simp only [kind, reduceIte, reduceCtorEq] at spare
          exact behind (by simpa using spare)

end Token

/-- At least as many blocks end as start behind every token ahead, and besides those the given number of
blocks ends. No end of a block was missed so far. -/
structure Cursor.Covers (cursor : Cursor) (blocks : Nat) : Prop where
  ends : ∀ rest, rest <:+ cursor.rest → Token.indents rest ≤ Token.dedents rest
  spare : Token.indents cursor.rest + blocks ≤ Token.dedents cursor.rest
  complete : ∀ error ∈ cursor.errors, error.reason ≠ .blockEnd

namespace Cursor.Covers

variable {cursor : Cursor} {blocks : Nat}

/-- An error that is not about the end of a block can be reported. -/
theorem report (covers : cursor.Covers blocks) {error : GrammarError}
    (known : error.reason ≠ .blockEnd) : (cursor.report error).Covers blocks :=
  ⟨covers.ends, covers.spare, List.forall_mem_cons.mpr ⟨known, covers.complete⟩⟩

/-- After a step there are still as many dedents as indents behind every place. -/
theorem advance_ends (covers : cursor.Covers blocks) :
    ∀ rest, rest <:+ cursor.advance.rest → Token.indents rest ≤ Token.dedents rest :=
  fun rest suffix => covers.ends rest (suffix.trans (List.tail_suffix _))

/-- Any token but the end of a block may be passed. -/
theorem advance (covers : cursor.Covers blocks) (inside : cursor.current.kind ≠ .dedent) :
    cursor.advance.Covers blocks := by
  refine ⟨covers.advance_ends, ?_, covers.complete⟩
  have spare := covers.spare
  unfold Cursor.current at inside
  unfold Cursor.advance
  cases shape : cursor.rest with
  | nil => simpa [shape] using spare
  | cons token rest =>
      rw [shape] at inside spare
      simp only [List.headD_cons] at inside
      simp only [Token.indents_cons, Token.dedents_cons, if_neg inside] at spare
      simp only [List.tail_cons]
      omega

/-- The start of a block is followed by one more end. -/
theorem enter (covers : cursor.Covers blocks) (more : cursor.rest ≠ [])
    (opens : cursor.current.kind = .indent) : cursor.advance.Covers (blocks + 1) := by
  refine ⟨covers.advance_ends, ?_, covers.complete⟩
  have spare := covers.spare
  unfold Cursor.current at opens
  unfold Cursor.advance
  cases shape : cursor.rest with
  | nil => exact absurd shape more
  | cons token rest =>
      rw [shape] at opens spare
      simp only [List.headD_cons] at opens
      simp only [Token.indents_cons, Token.dedents_cons, opens, reduceIte, reduceCtorEq] at spare
      simp only [List.tail_cons]
      omega

/-- Leaving a block uses up the dedent that was there for it. -/
theorem leave (covers : cursor.Covers (blocks + 1)) (more : cursor.rest ≠ [])
    (closes : cursor.current.kind = .dedent) : cursor.advance.Covers blocks := by
  refine ⟨covers.advance_ends, ?_, covers.complete⟩
  have spare := covers.spare
  unfold Cursor.current at closes
  unfold Cursor.advance
  cases shape : cursor.rest with
  | nil => exact absurd shape more
  | cons token rest =>
      rw [shape] at closes spare
      simp only [List.headD_cons] at closes
      simp only [Token.indents_cons, Token.dedents_cons, closes, reduceIte, reduceCtorEq] at spare
      simp only [List.tail_cons]
      omega

/-- Inside of a block there is an end ahead. -/
theorem rest_ne_nil (covers : cursor.Covers (blocks + 1)) : cursor.rest ≠ [] := by
  intro empty
  have spare := covers.spare
  rw [empty] at spare
  simp at spare

/-- Skipping to the next statement keeps every dedent that is needed. -/
theorem synchronize (covers : cursor.Covers blocks) :
    ({ cursor with rest := Token.synchronize cursor.rest } : Cursor).Covers blocks where
  ends rest suffix := covers.ends rest (suffix.trans (Token.synchronize_suffix _))
  spare := Token.synchronize_spare covers.ends covers.spare
  complete := covers.complete

/-- Recovery from an error inside a block leaves the dedents of the blocks around it. -/
theorem recover {start failed : Cursor} (follows : start.Follows failed)
    (inside : start.current.kind ≠ .dedent) (covers : failed.Covers blocks) {error : GrammarError}
    (known : error.reason ≠ .blockEnd) : (start.recover failed error).Covers blocks := by
  have reported := covers.report known
  unfold Cursor.recover
  dsimp only
  split
  · next unmoved =>
      have same : failed.rest = start.rest := follows.rest.eq_of_length unmoved
      refine (reported.advance ?_).synchronize
      have current : failed.current = start.current := by
        unfold Cursor.current
        rw [same, follows.finish]
      change failed.current.kind ≠ .dedent
      rwa [current]
  · exact reported.synchronize

/-- Outside of blocks any tokens may be passed. -/
theorem of_suffix {next : Cursor} (covers : cursor.Covers 0) (later : next.rest <:+ cursor.rest)
    (complete : ∀ error ∈ next.errors, error.reason ≠ .blockEnd) : next.Covers 0 where
  ends rest suffix := covers.ends rest (suffix.trans later)
  spare := covers.ends next.rest later
  complete := complete

end Cursor.Covers

namespace Reader

/-- Reading keeps the ends of the blocks around it. -/
def coverage : Walk where
  passes start next := ∀ blocks, start.Covers blocks → next.Covers blocks
  fails start next error :=
    ∀ blocks, start.Covers blocks → next.Covers blocks ∧ error.reason ≠ .blockEnd
  refl _ _ covers := covers
  trans first second blocks covers := second blocks (first blocks covers)
  after first second blocks covers := second blocks (first blocks covers)
  step := by
    intro cursor _ inside blocks covers
    refine covers.advance fun closes => inside ?_
    simp [closes]
  number _ _ covers := ⟨covers.ends, covers.spare, covers.complete⟩
  assigned := by
    intro start next _ equals passed blocks covers
    have moved := covers.advance (by rw [equals]; decide)
    exact (passed blocks moved).report GrammarError.Reason.noConfusion
  mistaken _ _ known _ covers := ⟨covers, known⟩
  malformed := by
    intro cursor _ inside blocks covers
    refine ⟨covers.advance fun closes => inside ?_, GrammarError.Reason.noConfusion⟩
    simp [closes]
  enclosed := by
    intro start next more opens passed further closes blocks covers
    exact (passed _ (covers.enter more opens)).leave further closes
  unended := by
    intro start next more opens passed ended blocks covers
    exact absurd ended (passed _ (covers.enter more opens)).rest_ne_nil
  recovered := by
    intro start failed error _ inside follows passed blocks covers
    obtain ⟨kept, known⟩ := passed blocks covers
    exact kept.recover follows inside known

/-- Outside of blocks the end of a block may be skipped too. -/
theorem attempt_covers {fuel : Nat} {start next : Cursor} {read : Option Statement}
    (closed : start.finish.kind = .endOfFile) (covers : start.Covers 0)
    (ran : attempt fuel start = .ok read next) : next.Covers 0 := by
  have follows : start.Follows next := @Goal.follows_of_ok _ fuel .attempt _ _ _ ran
  cases fuel with
  | zero => cases ran
  | succ fuel =>
      have holds : coverage.Holds start (statement fuel start) :=
        coverage.leads fuel .statement start closed trivial
      cases inner : statement fuel start with
      | ok tree after =>
          rw [attempt_of_ok inner] at ran
          cases ran
          rw [inner] at holds
          exact holds 0 covers
      | error failure failed =>
          cases failure with
          | mistake error =>
              rw [attempt_of_mistake inner] at ran
              cases ran
              rw [inner] at holds
              obtain ⟨kept, known⟩ := holds 0 covers
              refine covers.of_suffix follows.rest ?_
              rw [Cursor.recover_errors]
              exact List.forall_mem_cons.mpr ⟨known, kept.complete⟩
          | outOfFuel =>
              rw [attempt_of_outOfFuel inner] at ran
              cases ran

/-- The outermost statements leave no block open. -/
theorem statements_covers {fuel : Nat} {start next : Cursor} {trees : List Statement}
    (closed : start.finish.kind = .endOfFile) (covers : start.Covers 0)
    (ran : statements fuel false start = .ok trees next) : next.Covers 0 := by
  induction fuel generalizing start trees with
  | zero => cases ran
  | succ fuel ih =>
      rw [statements, get_bind] at ran
      split at ran
      · cases ran
        exact covers
      · obtain ⟨read, middle, attempted, ran⟩ := bind_eq_ok ran
        have kept := attempt_covers closed covers attempted
        have still := (@Goal.follows_of_ok _ fuel .attempt _ _ _ attempted).closed closed
        cases read with
        | none => exact ih still kept ran
        | some first =>
            obtain ⟨others, last, further, ran⟩ := bind_eq_ok ran
            cases ran
            exact ih still kept further

end Reader

/-- Of tokens with the end of the file at their end only, nothing else is left out. -/
theorem Token.dropWhile_inside {tokens : List Token}
    (ended : ∀ token ∈ tokens.dropLast, token.kind ≠ .endOfFile) :
    ∀ token ∈ tokens.dropWhile (·.kind ≠ .endOfFile), token.kind = .endOfFile := by
  induction tokens with
  | nil => exact fun token member => absurd member List.not_mem_nil
  | cons token rest ih =>
      by_cases finishes : token.kind = .endOfFile
      · rw [List.dropWhile_cons_of_neg (by simp [finishes])]
        cases rest with
        | nil => simp [finishes]
        | cons next rest => exact absurd finishes (ended token List.mem_cons_self)
      · rw [List.dropWhile_cons_of_pos (by simp [finishes])]
        refine ih fun other member => ended other ?_
        cases rest with
        | nil => cases member
        | cons next rest => exact List.mem_cons_of_mem _ member

/-- Of balanced tokens, what is still ahead starts no more blocks than it ends. -/
theorem Cursor.ofTokens_covers {tokens : List Token}
    (ended : ∀ token ∈ tokens.dropLast, token.kind ≠ .endOfFile) (balanced : Token.Balanced tokens) :
    (Cursor.ofTokens tokens).Covers 0 := by
  have whole := @List.takeWhile_append_dropWhile _ (fun token : Token => decide (token.kind ≠ .endOfFile))
    tokens
  have left := Token.dropWhile_inside ended
  generalize tokens.dropWhile (·.kind ≠ .endOfFile) = closing at whole left
  have opened : Token.indents closing = 0 :=
    List.countP_eq_zero.mpr fun token member => by simp [left token member]
  have closed : Token.dedents closing = 0 :=
    List.countP_eq_zero.mpr fun token member => by simp [left token member]
  have ends : ∀ rest, rest <:+ tokens.takeWhile (·.kind ≠ .endOfFile) →
      Token.indents rest ≤ Token.dedents rest := by
    rintro rest ⟨before, shape⟩
    rw [← shape] at whole
    have covered := balanced.covered before ⟨rest ++ closing, by rw [← List.append_assoc, whole]⟩
    have counts := balanced.whole
    rw [← whole] at counts
    simp only [Token.indents_append, Token.dedents_append, opened, closed] at counts
    omega
  exact ⟨ends, ends _ List.suffix_rfl, fun error member => absurd member List.not_mem_nil⟩

/-- The text of the error at the end of a block belongs to no other error. -/
theorem GrammarError.Reason.eq_blockEnd {reason : GrammarError.Reason}
    (same : reason.detail = "expect end of block") : reason = .blockEnd := by
  cases reason with
  | lineEnd context => cases context <;> exact absurd same (by decide)
  | block context => cases context <;> exact absurd same (by decide)
  | blockEnd => rfl
  | _ => exact absurd same (by decide)

namespace Program

/-- A list of tokens with balanced blocks never fails for the end of a block. -/
theorem ofTokens_complete {tokens : List Token}
    (ended : ∀ token ∈ tokens.dropLast, token.kind ≠ .endOfFile) (balanced : Token.Balanced tokens) :
    ∀ error ∈ (ofTokens tokens).2, error.reason.detail ≠ "expect end of block" := by
  obtain ⟨program, next, ran, read⟩ := ofTokens_eq tokens
  have covers := Reader.statements_covers (Cursor.ofTokens_closed tokens)
    (Cursor.ofTokens_covers ended balanced) ran
  intro error member missing
  rw [read] at member
  exact covers.complete error (List.mem_reverse.mp member) (GrammarError.Reason.eq_blockEnd missing)

/-- If the blocks of the tokens are balanced, as those of every text are, the end of a block is never
missed. -/
theorem ofTokens_finds_block_ends :
    (∀ tokens : List Token, (∀ token ∈ tokens.dropLast, token.kind ≠ .endOfFile) →
      Token.Balanced tokens →
        ∀ error ∈ (ofTokens tokens).2, error.reason.detail ≠ "expect end of block") ∧
    ∀ source : String,
      ∀ error ∈ (ofTokens (Token.scan source).1).2, error.reason.detail ≠ "expect end of block" := by
  refine ⟨fun tokens ended balanced => ofTokens_complete ended balanced, fun source => ?_⟩
  have blocks : Token.FormsBlocks (Token.scan source).1 := Token.layout_formsBlocks _
  obtain ⟨body, last, whole, _, inside⟩ := blocks.finished
  refine ofTokens_complete ?_ blocks.balanced
  rw [whole, List.dropLast_concat]
  exact inside

/-- The start of a block is skipped inside of another one, which then ends where the inner one would. -/
theorem ofTokens_finds_block_ends_astray :
    let tokens : List Token := [
      .structural .ifWord 1, .structural .trueWord 1, .structural .indent 2, .structural .indent 2,
      .structural .breakWord 2, .structural .newline 2, .structural .dedent 3,
      .structural .elseWord 3, .structural .newline 3, .structural .dedent 4,
      .structural .endOfFile 4]
    Token.Balanced tokens ∧ (ofTokens tokens).2.length = 3 ∧
      ∀ error ∈ (ofTokens tokens).2, error.reason.detail ≠ "expect end of block" :=
  ⟨by decide, by decide, ofTokens_finds_block_ends.1 _ (by decide) (by decide)⟩

end Program

end OffsideScript
