import OffsideScript.Proofs.Grammar.Bounds
import OffsideScript.Tree.Display

namespace OffsideScript

namespace Reader

/-- An attempt reports its errors at the tokens that it sees. -/
theorem attempt_finds {fuel : Nat} {start next : Cursor} {read : Option Statement}
    (closed : start.finish.kind = .endOfFile) (ran : attempt fuel start = .ok read next) :
    start.Finds next [] := by
  cases fuel with
  | zero => cases ran
  | succ fuel =>
      have holds : location.Holds start (statement fuel start) :=
        location.leads fuel .statement start closed trivial
      cases inner : statement fuel start with
      | ok tree after =>
          rw [attempt_of_ok inner] at ran
          cases ran
          rw [inner] at holds
          exact holds
      | error failure failed =>
          cases failure with
          | mistake error =>
              rw [attempt_of_mistake inner] at ran
              cases ran
              rw [inner] at holds
              exact Cursor.Finds.recover holds
          | outOfFuel =>
              rw [attempt_of_outOfFuel inner] at ran
              cases ran

/-- Outside of blocks, too, errors are reported at the tokens that are seen. -/
theorem statements_finds {fuel : Nat} {start next : Cursor} {trees : List Statement}
    (closed : start.finish.kind = .endOfFile) (ran : statements fuel false start = .ok trees next) :
    start.Finds next [] := by
  induction fuel generalizing start trees with
  | zero => cases ran
  | succ fuel ih =>
      rw [statements, get_bind] at ran
      split at ran
      · cases ran
        exact .refl _
      · obtain ⟨read, middle, attempted, ran⟩ := bind_eq_ok ran
        have found := attempt_finds closed attempted
        have still := (@Goal.follows_of_ok _ fuel .attempt _ _ _ attempted).closed closed
        cases read with
        | none => exact found.trans (ih still ran)
        | some first =>
            obtain ⟨others, last, further, ran⟩ := bind_eq_ok ran
            cases ran
            exact found.trans (ih still further)

end Reader

/-- The tokens that a cursor has ahead are those of the list if the list has an end of the file. -/
theorem Cursor.ofTokens_subset {tokens : List Token} (ended : ∃ token ∈ tokens, token.kind = .endOfFile) :
    (Cursor.ofTokens tokens).rest ++ [(Cursor.ofTokens tokens).finish] ⊆ tokens := by
  apply List.append_subset.mpr
  constructor
  · exact (List.takeWhile_sublist _).subset
  · obtain ⟨token, member, ends⟩ := ended
    have isSome : (tokens.find? (·.kind = .endOfFile)).isSome :=
      List.find?_isSome.mpr ⟨token, member, decide_eq_true ends⟩
    obtain ⟨stop, found⟩ := Option.isSome_iff_exists.mp isSome
    apply List.cons_subset.mpr
    apply And.intro _ (List.nil_subset _)
    unfold ofTokens
    rw [found]
    exact List.mem_of_find?_eq_some found

namespace Program

/-- Every error is reported at a token. -/
theorem ofTokens_located {tokens : List Token} (ended : ∃ token ∈ tokens, token.kind = .endOfFile) :
    ∀ error ∈ (ofTokens tokens).2, error.IsAt tokens := by
  intro error member
  obtain ⟨program, last, read, _, ran⟩ := ofTokens_ends tokens
  obtain ⟨passed, reports, reads, errors, located⟩ :=
    Reader.statements_finds (Cursor.ofTokens_closed tokens) (ran _ (Nat.le_refl _))
  rw [read, List.mem_reverse, errors] at member
  have reported : error ∈ [] ++ reports := by simpa [Cursor.ofTokens] using member
  apply (located error reported).mono
  apply List.Subset.trans _ (Cursor.ofTokens_subset ended)
  rw [reads.rest, ← reads.finish]
  apply List.append_subset.mpr
  constructor
  · rw [List.append_assoc]
    exact List.subset_append_left _ _
  · unfold Cursor.current
    cases last.rest <;> simp

end Program

section Display

variable (labels : Relabeling)

mutual

/-- An expression is displayed alike with other labels. -/
theorem Expression.display_relabel : ∀ expression : Expression,
    (expression.relabel labels).display = expression.display
  | .constant _ | .variable _ _ => rfl
  | .group inner => by rw [relabel, display, display, inner.display_relabel]
  | .unary _ _ operand => by rw [relabel, display, display, operand.display_relabel]
  | .binary _ _ left right | .logical _ _ left right => by
      rw [relabel, display, display, left.display_relabel, right.display_relabel]
  | .conditional condition whenTrue whenFalse => by
      rw [relabel, display, display, condition.display_relabel, whenTrue.display_relabel,
        whenFalse.display_relabel]
  | .assign _ _ value => by
      rw [relabel, display, display, value.display_relabel]
      rfl
  | .array elements => by rw [relabel, display, display, displayAll_relabel elements]
  | .map entries => by rw [relabel, display, display, displayEntries_relabel entries]
  | .call callee _ arguments => by
      rw [relabel, display, display, callee.display_relabel, displayAll_relabel arguments]
  | .index object _ position => by
      rw [relabel, display, display, object.display_relabel, position.display_relabel]
  | .setIndex object _ position value => by
      rw [relabel, display, display, object.display_relabel, position.display_relabel,
        value.display_relabel]

theorem Expression.displayAll_relabel : ∀ expressions : List Expression,
    displayAll (relabelAll labels expressions) = displayAll expressions
  | [] => rfl
  | expression :: rest => by
      rw [relabelAll, displayAll, displayAll, expression.display_relabel, displayAll_relabel rest]

theorem Expression.displayEntries_relabel : ∀ entries : List (Expression × Expression),
    displayEntries (relabelEntries labels entries) = displayEntries entries
  | [] => rfl
  | (key, value) :: rest => by
      rw [relabelEntries, displayEntries, displayEntries, key.display_relabel, value.display_relabel,
        displayEntries_relabel rest]

end

mutual

/-- What a tree looks like depends on no line and on no number of a reference. -/
theorem Statement.display_relabel : ∀ statement : Statement,
    (statement.relabel labels).display = statement.display
  | .print _ value => by rw [relabel, display, display, value.display_relabel]
  | .evaluate value => by rw [relabel, display, display, value.display_relabel]
  | .declare _ none | .ret _ none | .breakLoop _ | .continueLoop _ => rfl
  | .declare _ (some initial) => by
      rw [relabel, Option.map_some, display, display, initial.display_relabel]
      rfl
  | .ret _ (some value) => by rw [relabel, Option.map_some, display, display, value.display_relabel]
  | .branch branches => by rw [relabel, display, display, displayBranches_relabel branches]
  | .loop condition body => by
      rw [relabel, display, display, condition.display_relabel, displayAll_relabel body]
  | .function _ parameters body => by
      rw [relabel, display, display, displayAll_relabel body, List.map_map]
      rfl

theorem Statement.displayAll_relabel : ∀ statements : List Statement,
    displayAll (relabelAll labels statements) = displayAll statements
  | [] => rfl
  | statement :: rest => by
      rw [relabelAll, displayAll, displayAll, statement.display_relabel, displayAll_relabel rest]

theorem Statement.displayBranches_relabel : ∀ branches : List (Expression × List Statement),
    displayBranches (relabelBranches labels branches) = displayBranches branches
  | [] => rfl
  | (condition, body) :: rest => by
      rw [relabelBranches, displayBranches, displayBranches, condition.display_relabel,
        displayAll_relabel body, displayBranches_relabel rest]

end

end Display

/-- An error at a place gets the line of the token there. -/
theorem GrammarError.at_placed {tokens : List Token} {place : Nat} (inside : place < tokens.length)
    (reason : GrammarError.Reason) :
    (GrammarError.at (tokens[place].onLine place) reason).relabel (.lines (Token.lineAt tokens)) =
      .at tokens[place] reason := by
  have there : Token.lineAt tokens place = tokens[place].line := by
    rw [Token.lineAt, List.getElem?_eq_getElem inside]
    rfl
  show GrammarError.mk (Token.lineAt tokens place) tokens[place].location reason = _
  rw [there]
  rfl

/-- Two errors with one reason at tokens that have the same place in two lists. -/
def GrammarError.Matches (tokens others : List Token) (error other : GrammarError) : Prop :=
  ∃ place ∈ tokens.zip others, ∃ reason, error = .at place.1 reason ∧ other = .at place.2 reason

namespace Program

/-- Tokens that differ in their lines only form programs that look the same, and have their errors at the
same places. -/
theorem ofTokens_unlined {tokens others : List Token}
    (same : tokens.map Token.unlined = others.map Token.unlined)
    (ended : ∃ token ∈ tokens, token.kind = .endOfFile) :
    Statement.displayAll (ofTokens tokens).1 = Statement.displayAll (ofTokens others).1 ∧
      List.Forall₂ (GrammarError.Matches tokens others) (ofTokens tokens).2 (ofTokens others).2 := by
  have numbers := Token.placed_congr same
  have length : tokens.length = others.length := by
    simpa using congrArg List.length same
  obtain ⟨stop, stops, ends⟩ := ended
  have nonempty : tokens ≠ [] := List.ne_nil_of_mem stops
  have still : others ≠ [] := by
    apply List.length_pos_iff.mp
    rw [← length]
    exact List.length_pos_iff.mpr nonempty
  have located : ∀ error ∈ (ofTokens (Token.placed tokens)).2, error.IsAt (Token.placed tokens) := by
    apply ofTokens_located
    obtain ⟨place, inside, rfl⟩ := List.getElem_of_mem stops
    exact ⟨_, List.mem_mapIdx.mpr ⟨place, inside, rfl⟩, ends⟩
  rw [ofTokens_placed nonempty, ofTokens_placed still, ← numbers]
  constructor
  · exact (Statement.displayAll_relabel _ _).trans (Statement.displayAll_relabel _ _).symm
  · apply List.forall₂_map_left_iff.mpr
    apply List.forall₂_map_right_iff.mpr
    apply List.forall₂_same.mpr
    intro error member
    obtain ⟨token, listed, reason, rfl⟩ := located error member
    obtain ⟨place, inside, rfl⟩ := List.mem_mapIdx.mp listed
    have within : place < others.length := length ▸ inside
    have corresponds : tokens[place].onLine place = others[place].onLine place := by
      apply Option.some.inj
      rw [← Token.placed_getElem? inside, ← Token.placed_getElem? within, numbers]
    refine ⟨(tokens[place], others[place]), ?_, reason, GrammarError.at_placed inside reason, ?_⟩
    · have both : place < (tokens.zip others).length := by
        rw [List.length_zip]
        omega
      exact List.mem_iff_getElem.mpr ⟨place, both, List.getElem_zip⟩
    · rw [corresponds]
      exact GrammarError.at_placed within reason

end Program

end OffsideScript
