import OffsideScript.Grammar.Statement
import OffsideScript.Proofs.Outcome

namespace OffsideScript.Reader

/-- The current token is seen without a step. -/
theorem current_eq (cursor : Cursor) : current cursor = .ok cursor.current cursor := rfl

/-- A step gives the token that it passes. -/
theorem advance_eq (cursor : Cursor) : advance cursor = .ok cursor.current cursor.advance := rfl

/-- A test compares the kind of the current token. -/
theorem check_eq (kind : Token.Kind) (cursor : Cursor) :
    check kind cursor = .ok (cursor.current.kind == kind) cursor := rfl

/-- A name takes the next number and its token. -/
theorem name_eq (cursor : Cursor) :
    name cursor = .ok (.variable cursor.nextNode cursor.current)
      { cursor.advance with nextNode := cursor.nextNode + 1 } := rfl

/-- A token is accepted if it has the kind. -/
theorem accept_eq (kind : Token.Kind) (cursor : Cursor) :
    accept kind cursor =
      if cursor.current.kind = kind then .ok true cursor.advance else .ok false cursor := by
  unfold accept
  rw [bind_of_ok (check_eq kind cursor)]
  by_cases same : cursor.current.kind = kind <;> simp [same] <;> rfl

/-- A token of another kind than the required one is a mistake. -/
theorem expect_eq (kind : Token.Kind) (reason : GrammarError.Reason) (cursor : Cursor) :
    expect kind reason cursor =
      if cursor.current.kind = kind then .ok cursor.current cursor.advance
      else .error (.mistake (.at cursor.current reason)) cursor := by
  unfold expect
  rw [bind_of_ok (check_eq kind cursor)]
  by_cases same : cursor.current.kind = kind <;> simp [same] <;> rfl

/-- A token of another kind is not accepted. -/
theorem accept_of_ne {kind : Token.Kind} {cursor : Cursor} (other : cursor.current.kind ≠ kind) :
    accept kind cursor = .ok false cursor :=
  (accept_eq kind cursor).trans (if_neg other)

/-- A literal is what the current token carries. -/
theorem literal_eq (cursor : Cursor) :
    literal cursor =
      match cursor.current.literal with
      | some value => .ok (.constant (.ofLiteral value)) cursor.advance
      | none => .error (.mistake (.at cursor.current .malformedLiteral)) cursor.advance := by
  unfold literal
  rw [bind_of_ok (advance_eq cursor)]
  cases cursor.current.literal <;> rfl

/-- A line that is not ended is a mistake. -/
theorem endLine_eq (context : LineContext) (cursor : Cursor) :
    endLine context cursor =
      if cursor.current.kind = .newline then .ok () cursor.advance
      else .error (.mistake (.at cursor.current (.lineEnd context))) cursor := by
  unfold endLine
  by_cases same : cursor.current.kind = .newline
  · rw [if_pos same, bind_of_ok ((expect_eq _ _ cursor).trans (if_pos same))]
    rfl
  · rw [if_neg same, bind_of_error ((expect_eq _ _ cursor).trans (if_neg same))]

/-- Two readers that are followed by the same one. -/
theorem ite_bind {α β : Type} (condition : Bool) (left right : Reader α) (rest : α → Reader β) :
    (if condition then left >>= rest else right >>= rest) =
      (if condition then left else right) >>= rest := by
  cases condition <;> rfl

/-- An attempt gives the statement that is read. -/
theorem attempt_of_ok {fuel : Nat} {start next : Cursor} {read : Statement}
    (ran : statement fuel start = .ok read next) :
    attempt (fuel + 1) start = .ok (some read) next := by
  rw [attempt]
  dsimp only
  rw [ran]

/-- An attempt at a broken statement recovers. -/
theorem attempt_of_mistake {fuel : Nat} {start next : Cursor} {error : GrammarError}
    (ran : statement fuel start = .error (.mistake error) next) :
    attempt (fuel + 1) start = .ok none (start.recover next error) := by
  rw [attempt]
  dsimp only
  rw [ran]

/-- An attempt runs out of fuel if its statement does. -/
theorem attempt_of_outOfFuel {fuel : Nat} {start next : Cursor}
    (ran : statement fuel start = .error .outOfFuel next) :
    attempt (fuel + 1) start = .error .outOfFuel next := by
  rw [attempt]
  dsimp only
  rw [ran]

end OffsideScript.Reader
