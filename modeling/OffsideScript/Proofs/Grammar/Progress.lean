import OffsideScript.Proofs.Grammar.Plan
import Mathlib.Data.List.Basic

namespace OffsideScript

namespace Token

/-- Skipping a block leaves some of the last tokens. -/
theorem skipBlock_suffix (depth : Nat) (tokens : List Token) :
    skipBlock depth tokens <:+ tokens := by
  induction tokens generalizing depth with
  | nil => exact List.suffix_rfl
  | cons token rest ih =>
      have longer := List.suffix_cons token rest
      unfold skipBlock
      split
      · exact (ih _).trans longer
      · split
        · exact longer
        · exact (ih _).trans longer
      · exact (ih _).trans longer

/-- Skipping the rest of a statement leaves some of the last tokens. -/
theorem synchronize_suffix (tokens : List Token) : synchronize tokens <:+ tokens := by
  induction tokens with
  | nil => exact List.suffix_rfl
  | cons token rest ih =>
      have longer := List.suffix_cons token rest
      unfold synchronize
      cases token.kind with
      | newline => exact longer
      | indent => exact skipBlock_suffix 0 (token :: rest)
      | dedent => exact List.suffix_rfl
      | ifWord => exact List.suffix_rfl
      | funcWord => exact List.suffix_rfl
      | retWord => exact List.suffix_rfl
      | letWord => exact List.suffix_rfl
      | whileWord => exact List.suffix_rfl
      | printWord => exact List.suffix_rfl
      | _ => exact ih.trans longer

end Token

/-- One cursor is further on than another in the same list, and no number and no error is taken back. -/
structure Cursor.Follows (start next : Cursor) : Prop where
  rest : next.rest <:+ start.rest
  finish : next.finish = start.finish
  counts : start.nextNode ≤ next.nextNode
  errors : start.errors <:+ next.errors

namespace Cursor

theorem Follows.refl (cursor : Cursor) : cursor.Follows cursor :=
  ⟨List.suffix_rfl, rfl, Nat.le_refl _, List.suffix_rfl⟩

theorem Follows.trans {first second third : Cursor} (left : first.Follows second)
    (right : second.Follows third) : first.Follows third :=
  ⟨right.rest.trans left.rest, right.finish.trans left.finish, Nat.le_trans left.counts right.counts,
    left.errors.trans right.errors⟩

/-- The end of the file stays what it is. -/
theorem Follows.closed {start next : Cursor} (follows : start.Follows next)
    (closed : start.finish.kind = .endOfFile) : next.finish.kind = .endOfFile := by
  rw [follows.finish]
  exact closed

/-- A step goes on. -/
theorem follows_advance (cursor : Cursor) : cursor.Follows cursor.advance :=
  ⟨List.tail_suffix _, rfl, Nat.le_refl _, List.suffix_rfl⟩

/-- Giving a number moves nothing. -/
theorem follows_number (cursor : Cursor) :
    cursor.Follows { cursor with nextNode := cursor.nextNode + 1 } :=
  ⟨List.suffix_rfl, rfl, Nat.le_succ _, List.suffix_rfl⟩

/-- A report moves nothing. -/
theorem follows_report (cursor : Cursor) (error : GrammarError) :
    cursor.Follows (cursor.report error) :=
  ⟨List.suffix_rfl, rfl, Nat.le_refl _, List.suffix_cons _ _⟩

/-- Recovery goes on from where reading failed. -/
theorem follows_recover (start failed : Cursor) (error : GrammarError) :
    failed.Follows (start.recover failed error) := by
  have skips (cursor : Cursor) :
      cursor.Follows { cursor with rest := Token.synchronize cursor.rest } :=
    ⟨Token.synchronize_suffix _, rfl, Nat.le_refl _, List.suffix_rfl⟩
  have reported := failed.follows_report error
  unfold recover
  dsimp only
  split
  · exact (reported.trans (follows_advance _)).trans (skips _)
  · exact reported.trans (skips _)

/-- Recovery adds the error to those that were reported. -/
theorem recover_errors (start failed : Cursor) (error : GrammarError) :
    (start.recover failed error).errors = error :: failed.errors := by
  unfold recover
  dsimp only
  split <;> rfl

/-- At a token other than the end of the file there is a token to pass. -/
theorem rest_ne_nil {cursor : Cursor} (closed : cursor.finish.kind = .endOfFile)
    (live : cursor.current.kind ≠ .endOfFile) : cursor.rest ≠ [] := by
  intro empty
  rw [current, empty] at live
  exact live closed

/-- A step leaves one token less. -/
theorem advance_length {cursor : Cursor} (nonempty : cursor.rest ≠ []) :
    cursor.advance.rest.length + 1 = cursor.rest.length := by
  cases shape : cursor.rest with
  | nil => exact absurd shape nonempty
  | cons token rest => simp [advance, shape]

/-- A statement that failed at its first token loses this token before the search goes on. -/
theorem recover_length {start failed : Cursor} (follows : start.Follows failed)
    (nonempty : start.rest ≠ []) (error : GrammarError) :
    (start.recover failed error).rest.length < start.rest.length := by
  have fewer := follows.rest.length_le
  unfold recover
  dsimp only
  split
  · next same =>
      have unmoved : failed.rest ≠ [] := fun empty => by
        rw [empty] at same
        exact nonempty (List.length_eq_zero_iff.mp same.symm)
      have length : (failed.report error).advance.rest.length + 1 = failed.rest.length :=
        advance_length unmoved
      have shorter := (Token.synchronize_suffix (failed.report error).advance.rest).length_le
      omega
  · have shorter := (Token.synchronize_suffix failed.rest).length_le
    change (Token.synchronize failed.rest).length < start.rest.length
    omega

end Cursor

/-- No reader goes back. -/
theorem Plan.follows {α : Type} {fuel : Nat}
    (goals : ∀ {β : Type} (goal : Goal β) (start : Cursor),
      start.Follows (finalState (goal.read fuel start))) (plan : Plan α) (start : Cursor) :
    start.Follows (finalState (plan.run fuel start)) := by
  induction plan generalizing start with
  | done value => exact .refl start
  | fail reason => exact .refl start
  | take sort live taken other ihTaken ihOther =>
      rw [run]
      cases sort start.current.kind with
      | some found => exact start.follows_advance.trans (ihTaken found _ _)
      | none => exact ihOther start
  | look kind same other ihSame ihOther =>
      rw [run]
      split
      · exact ihSame start
      · exact ihOther start
  | name taken other ihTaken ihOther =>
      rw [run]
      split
      · exact (start.follows_advance.trans start.advance.follows_number).trans (ihTaken _ _ _)
      · exact ihOther start
  | literal taken other ihTaken ihOther =>
      rw [run]
      split
      · cases start.current.literal with
        | some value => exact start.follows_advance.trans (ihTaken value _)
        | none => exact start.follows_advance
      · exact ihOther start
  | report error next ih =>
      rw [run]
      exact (start.follows_report error).trans (ih _)
  | ask goal next ih =>
      have follows := goals goal start
      rw [run]
      cases ran : goal.read fuel start with
      | ok value middle =>
          rw [ran] at follows
          exact follows.trans (ih value middle)
      | error failure middle =>
          rw [ran] at follows
          exact follows
  | ending nested ended more ihEnded ihMore =>
      rw [run]
      split
      · exact ihEnded start
      · exact ihMore start
  | rescue next ih =>
      have follows := goals .statement start
      rw [Goal.read] at follows
      rw [run]
      cases ran : Reader.statement fuel start with
      | ok tree middle =>
          rw [ran] at follows
          exact follows.trans (ih _ middle)
      | error failure middle =>
          rw [ran] at follows
          cases failure with
          | mistake error =>
              exact (follows.trans (start.follows_recover middle error)).trans (ih none _)
          | outOfFuel => exact follows

/-- Reading never goes back. -/
theorem Goal.follows {α : Type} (fuel : Nat) (goal : Goal α) (start : Cursor) :
    start.Follows (finalState (goal.read fuel start)) :=
  read_induction
    (motive := fun _ _ _ reader => ∀ start : Cursor, start.Follows (finalState (reader start)))
    (fun _ start => .refl start) (fun _ goals _ goal => goal.plan.follows goals) fuel goal start

/-- Where reading succeeds, it has not gone back. -/
theorem Goal.follows_of_ok {α : Type} {fuel : Nat} {goal : Goal α} {start next : Cursor} {value : α}
    (ran : goal.read fuel start = .ok value next) : start.Follows next := by
  have follows := goal.follows fuel start
  rw [ran] at follows
  exact follows

/-- Recovery from a mistake has not gone back. -/
theorem Goal.follows_of_mistake {α : Type} {fuel : Nat} {goal : Goal α} {start failed : Cursor}
    {error : GrammarError} (mistaken : goal.read fuel start = .error (.mistake error) failed) :
    start.Follows (start.recover failed error) := by
  have follows := goal.follows fuel start
  rw [mistaken] at follows
  exact follows.trans (start.follows_recover failed error)

/-- A plan that succeeds has not gone back. -/
theorem Plan.Succeeds.follows {α : Type} {fuel : Nat} {plan : Plan α} {start last : Cursor} {value : α}
    (succeeds : plan.Succeeds fuel value last start) : start.Follows last := by
  induction succeeds with
  | done => exact .refl last
  | untaken _ _ ih | found _ _ ih | missed _ _ ih | unnamed _ _ ih | uncarried _ _ ih | ended _ _ ih
    | unended _ _ ih => exact ih
  | @taken _ _ _ _ _ start _ _ _ ih | @carried _ _ start _ _ _ _ ih =>
      exact start.follows_advance.trans ih
  | @named _ _ start _ _ ih =>
      exact (start.follows_advance.trans start.advance.follows_number).trans ih
  | @reported error _ start _ ih => exact (start.follows_report error).trans ih
  | asked read _ ih | read read _ ih => exact (Goal.follows_of_ok read).trans ih
  | recovered mistaken _ ih => exact (Goal.follows_of_mistake mistaken).trans ih

/-- A plan that does not lack fuel does the same with more of it. -/
theorem Plan.run_more {α : Type} {fuel more : Nat}
    (goals : ∀ {β : Type} (goal : Goal β) (start : Cursor),
      goal.read more start = goal.read fuel start ∨
        ∃ next, goal.read fuel start = .error .outOfFuel next) (plan : Plan α) (start : Cursor) :
    plan.run more start = plan.run fuel start ∨
      ∃ next, plan.run fuel start = .error .outOfFuel next := by
  induction plan generalizing start with
  | done value => exact .inl rfl
  | fail reason => exact .inl rfl
  | take sort live taken other ihTaken ihOther =>
      rw [run, run]
      cases sort start.current.kind with
      | some found => exact ihTaken found _ _
      | none => exact ihOther start
  | look kind same other ihSame ihOther =>
      rw [run, run]
      split
      · exact ihSame start
      · exact ihOther start
  | name taken other ihTaken ihOther =>
      rw [run, run]
      split
      · exact ihTaken _ _ _
      · exact ihOther start
  | literal taken other ihTaken ihOther =>
      rw [run, run]
      split
      · cases start.current.literal with
        | some value => exact ihTaken value _
        | none => exact .inl rfl
      · exact ihOther start
  | report error next ih =>
      rw [run, run]
      exact ih _
  | ask goal next ih =>
      rw [run, run]
      rcases goals goal start with same | ⟨middle, out⟩
      · rw [same]
        cases goal.read fuel start with
        | ok value middle => exact ih value middle
        | error failure middle => exact .inl rfl
      · rw [out]
        exact .inr ⟨middle, rfl⟩
  | ending nested ended more ihEnded ihMore =>
      rw [run, run]
      split
      · exact ihEnded start
      · exact ihMore start
  | rescue next ih =>
      rw [run, run]
      rcases goals .statement start with same | ⟨middle, out⟩
      · rw [show Reader.statement more start = Reader.statement fuel start from same]
        cases Reader.statement fuel start with
        | ok tree middle => exact ih _ middle
        | error failure middle =>
            cases failure with
            | mistake error => exact ih none _
            | outOfFuel => exact .inl rfl
      · rw [show Reader.statement fuel start = .error .outOfFuel middle from out]
        exact .inr ⟨middle, rfl⟩

/-- A reader that does not lack fuel does the same with more of it. -/
theorem Goal.read_more {α : Type} {fuel more : Nat} (enough : fuel ≤ more) (goal : Goal α)
    (start : Cursor) :
    goal.read more start = goal.read fuel start ∨
      ∃ next, goal.read fuel start = .error .outOfFuel next := by
  refine read_induction
    (motive := fun fuel _ goal reader => ∀ more, fuel ≤ more → ∀ start : Cursor,
      goal.read more start = reader start ∨ ∃ next, reader start = .error .outOfFuel next)
    (fun _ _ _ start => .inr ⟨start, rfl⟩) (fun fuel goals _ goal more enough => ?_)
    fuel goal more enough start
  obtain ⟨less, rfl⟩ : ∃ less, more = less + 1 := ⟨more - 1, by omega⟩
  rw [read_succ]
  exact goal.plan.run_more fun inner => goals inner less (by omega)

/-- Reading comes to an end before its fuel does, and if it succeeds the number of tokens that are left is as
it should be. -/
def Reader.Settles {α : Type} (leaves : Nat → Prop) :
    EStateM.Result Reader.Failure Cursor α → Prop
  | .ok _ next => leaves next.rest.length
  | .error (.mistake _) _ => True
  | .error .outOfFuel _ => False

/-- How many readers an expression of a level goes through before it passes a token. -/
def Level.rank : Level → Nat
  | sequence => 14
  | assignment => 13
  | conditional => 12
  | disjunction => 11
  | conjunction => 10
  | equality => 9
  | comparison => 8
  | sum => 7
  | product => 6
  | power => 5
  | sign => 4
  | application => 3
  | atom => 2

/-- No level ranks above fourteen. -/
theorem Level.rank_le (level : Level) : level.rank ≤ 14 := by
  cases level <;> decide

/-- Ranks start at one. -/
theorem Level.rank_pos (level : Level) : 0 < level.rank := by
  cases level <;> decide

namespace Goal

variable {α : Type}

/-- How many readers a goal goes through before a token is passed. -/
def cost : {α : Type} → Goal α → Nat
  | _, .expression level => level.rank
  | _, .list _ => 15
  | _, .items => 14
  | _, .pairs => 14
  | _, .statement => 15
  | _, .attempt => 16
  | _, .statements _ => 17
  | _, _ => 1

/-- How many tokens of a list are passed at least where a goal is reached. -/
def gain : {α : Type} → Goal α → Nat → Nat
  | _, .statement, _ => 1
  | _, .attempt, size => min size 1
  | _, _, _ => 0

/-- Every goal costs something. -/
theorem cost_pos (goal : Goal α) : 0 < goal.cost := by
  cases goal with
  | expression level => exact level.rank_pos
  | _ => exact Nat.succ_pos _

/-- No goal costs more than seventeen. -/
theorem cost_le (goal : Goal α) : goal.cost ≤ 17 := by
  cases goal with
  | expression level => exact Nat.le_trans level.rank_le (by decide)
  | _ => simp only [cost, Nat.reduceLeDiff]

/-- A goal is reached, or fails with a mistake, wherever the fuel is enough. -/
def Finishes (fuel : Nat) (goal : Goal α) (reader : Reader α) : Prop :=
  ∀ start : Cursor, start.finish.kind = .endOfFile →
    20 * start.rest.length + goal.cost ≤ fuel →
      Reader.Settles (fun left => left + goal.gain start.rest.length ≤ start.rest.length) (reader start)

end Goal

namespace Plan

variable {α : Type}

/-- There is fuel for all goals of a plan on a list of the given length, and what is left at its end is as it
should be. -/
def Affords (fuel : Nat) (leaves : Nat → Prop) : Plan α → Nat → Prop
  | done _, size => leaves size
  | fail _, _ => True
  | take _ _ taken other, size =>
      (∀ found token left, left + 1 = size → (taken found token).Affords fuel leaves left) ∧
        other.Affords fuel leaves size
  | look _ found other, size => found.Affords fuel leaves size ∧ other.Affords fuel leaves size
  | name taken other, size =>
      (∀ node token left, left + 1 = size → (taken node token).Affords fuel leaves left) ∧
        other.Affords fuel leaves size
  | literal taken other, size =>
      (∀ value left, left + 1 = size → (taken value).Affords fuel leaves left) ∧
        other.Affords fuel leaves size
  | report _ next, size => next.Affords fuel leaves size
  | ask goal next, size =>
      20 * size + goal.cost ≤ fuel ∧
        ∀ value left, left + goal.gain size ≤ size → (next value).Affords fuel leaves left
  | ending _ ended more, size =>
      ended.Affords fuel leaves size ∧ (0 < size → more.Affords fuel leaves size)
  | rescue next, size =>
      20 * size + Goal.statement.cost ≤ fuel ∧
        ∀ read left, left + min size 1 ≤ size → (next read).Affords fuel leaves left

/-- An assignment costs no more reading. -/
theorem affords_assign {fuel size : Nat} {leaves : Nat → Prop} (target : Expression) (equals : Token)
    (value : Expression) (left : leaves size) :
    (assign target equals value).Affords fuel leaves size := by
  cases target <;> exact left

/-- Further statements are affordable with what an attempt has left. -/
theorem affords_further {fuel size total : Nat} (nested : Bool) (read : Option Statement)
    (enough : 20 * size + 17 ≤ fuel) (shorter : size ≤ total) :
    (further nested read).Affords fuel (· ≤ total) size := by
  cases read with
  | some first => exact ⟨enough, fun rest left fewer => Nat.le_trans fewer shorter⟩
  | none => exact ⟨enough, fun rest left fewer => Nat.le_trans fewer shorter⟩

/-- A plan settles if it can be afforded. -/
theorem settles {fuel : Nat} {leaves : Nat → Prop}
    (goals : ∀ {β : Type} (goal : Goal β), goal.Finishes fuel (goal.read fuel)) (plan : Plan α)
    {start : Cursor} (closed : start.finish.kind = .endOfFile)
    (affords : plan.Affords fuel leaves start.rest.length) :
    Reader.Settles leaves (plan.run fuel start) := by
  induction plan generalizing start with
  | done value => exact affords
  | fail reason => trivial
  | take sort live taken other ihTaken ihOther =>
      rw [run]
      cases sorted : sort start.current.kind with
      | some found =>
          have length := start.advance_length (Cursor.rest_ne_nil closed (ne_endOfFile live sorted))
          exact ihTaken found _ closed (affords.1 _ _ _ length)
      | none => exact ihOther closed affords.2
  | look kind same other ihSame ihOther =>
      rw [run]
      split
      · exact ihSame closed affords.1
      · exact ihOther closed affords.2
  | name taken other ihTaken ihOther =>
      rw [run]
      split
      · next named =>
          have length := start.advance_length (Cursor.rest_ne_nil closed (by rw [named]; decide))
          apply ihTaken
          · exact closed
          · exact affords.1 _ _ _ length
      · exact ihOther closed affords.2
  | literal taken other ihTaken ihOther =>
      rw [run]
      split
      · next kind =>
          have live := literal_ne_endOfFile kind
          have length := start.advance_length (Cursor.rest_ne_nil closed live)
          cases start.current.literal with
          | some value => exact ihTaken value closed (affords.1 _ _ length)
          | none => trivial
      · exact ihOther closed affords.2
  | report error next ih =>
      rw [run]
      apply ih
      · exact closed
      · exact affords
  | ask goal next ih =>
      have settles := goals goal start closed affords.1
      rw [run]
      cases ran : goal.read fuel start with
      | ok value middle =>
          rw [ran] at settles
          exact ih value ((Goal.follows_of_ok ran).closed closed) (affords.2 value _ settles)
      | error failure middle =>
          rw [ran] at settles
          cases failure <;> exact settles
  | ending nested ended more ihEnded ihMore =>
      rw [run]
      split
      · exact ihEnded closed affords.1
      · next further =>
          exact ihMore closed (affords.2 (List.length_pos_of_ne_nil (not_or.mp further).1))
  | rescue next ih =>
      have settles := goals .statement start closed affords.1
      have follows := Goal.statement.follows fuel start
      rw [Goal.read] at settles follows
      rw [run]
      cases ran : Reader.statement fuel start with
      | ok read middle =>
          rw [ran] at settles
          rw [ran, finalState_ok] at follows
          have fewer : middle.rest.length + min start.rest.length 1 ≤ start.rest.length :=
            Nat.le_trans (Nat.add_le_add_left (Nat.min_le_right _ _) _) settles
          exact ih _ (follows.closed closed) (affords.2 _ _ fewer)
      | error failure middle =>
          rw [ran] at settles
          rw [ran, finalState_error] at follows
          cases failure with
          | mistake error =>
              have recovers := follows.trans (start.follows_recover middle error)
              refine ih none (recovers.closed closed) (affords.2 _ _ ?_)
              by_cases nonempty : start.rest = []
              · have shorter := recovers.rest.length_le
                rw [nonempty] at shorter ⊢
                exact shorter
              · have shorter := Cursor.recover_length follows nonempty error
                omega
          | outOfFuel => exact settles

end Plan

namespace Goal

variable {α : Type}

/-- A tighter level needs less fuel on the same tokens, and the same level comes again one token later at the
earliest. -/
theorem plan_affords (goal : Goal α) {fuel size : Nat} (enough : 20 * size + goal.cost ≤ fuel + 1) :
    goal.plan.Affords fuel (fun left => left + goal.gain size ≤ size) size := by
  cases goal with
  | expression level =>
      cases level <;>
        simp only [plan, Plan.Affords, cost, gain, Level.rank, Level.tighter] at enough ⊢ <;>
        grind [Plan.affords_assign]
  | joined level left =>
      have lower := level.tighter.rank_le
      simp only [plan, Plan.Affords, cost, gain] at enough ⊢
      grind
  | statements nested =>
      simp only [plan, Plan.Affords, cost, gain] at enough ⊢
      refine ⟨Nat.le_refl _, fun more => ⟨by omega, fun read left fewer => ?_⟩⟩
      exact Plan.affords_further nested read (by omega) (by omega)
  | statement =>
      simp only [plan, Plan.Affords, cost, gain, Level.rank] at enough ⊢
      and_intros <;> grind
  | _ =>
      simp only [plan, Plan.Affords, cost, gain, Level.rank] at enough ⊢
      grind

/-- Every reader finishes where its fuel is enough. -/
theorem finishes (fuel : Nat) (goal : Goal α) : goal.Finishes fuel (goal.read fuel) := by
  refine read_induction (motive := fun fuel _ goal reader => goal.Finishes fuel reader)
    (fun goal start _ enough => ?_) (fun fuel goals _ goal start closed enough => ?_) fuel goal
  · have positive := goal.cost_pos
    omega
  · exact goal.plan.settles goals closed (goal.plan_affords enough)

end Goal

/-- A cursor over any tokens ends with the end of the file. -/
theorem Cursor.ofTokens_closed (tokens : List Token) :
    (Cursor.ofTokens tokens).finish.kind = .endOfFile := by
  unfold Cursor.ofTokens
  cases found : tokens.find? (·.kind = .endOfFile) with
  | none => rfl
  | some token => simpa using List.find?_some found

/-- Reading a whole list ends without a lack of fuel. -/
theorem Program.ofTokens_settles (tokens : List Token) :
    Reader.Settles (· ≤ (Cursor.ofTokens tokens).rest.length)
      (Reader.statements (Reader.enoughFuel tokens) false (.ofTokens tokens)) := by
  have shorter : (Cursor.ofTokens tokens).rest.length ≤ tokens.length :=
    (List.takeWhile_sublist _).length_le
  refine (Goal.statements false).finishes (Reader.enoughFuel tokens) _ (Cursor.ofTokens_closed tokens) ?_
  change _ + 17 ≤ 20 * (tokens.length + 2)
  omega

end OffsideScript
