import Mathlib.Logic.Basic

namespace OffsideScript

variable {ε σ α β : Type}

/-- The state in which an action ends, whether or not it fails. -/
def finalState : EStateM.Result ε σ α → σ
  | .ok _ state => state
  | .error _ state => state

@[simp] theorem finalState_ok (value : α) (state : σ) :
    finalState (.ok value state : EStateM.Result ε σ α) = state := rfl

@[simp] theorem finalState_error (failure : ε) (state : σ) :
    finalState (.error failure state : EStateM.Result ε σ α) = state := rfl

/-- Whether an action does not fail. -/
def succeeded : EStateM.Result ε σ α → Bool
  | .ok _ _ => true
  | .error _ _ => false

/-- An action that succeeds has a result. -/
theorem exists_of_succeeded {outcome : EStateM.Result ε σ α} (holds : succeeded outcome = true) :
    ∃ value state, outcome = .ok value state := by
  cases outcome with
  | ok value state => exact ⟨value, state, rfl⟩
  | error failure state => cases holds

/-- What an action yields if it does not fail. -/
def result? : EStateM.Result ε σ α → Option α
  | .ok value _ => some value
  | .error _ _ => none

/-- An action that succeeds ends with its result in its final state. -/
theorem eq_ok_of_succeeded {outcome : EStateM.Result ε σ α} (holds : succeeded outcome = true) :
    ∃ value, outcome = .ok value (finalState outcome) := by
  obtain ⟨value, state, rfl⟩ := exists_of_succeeded holds
  exact ⟨value, rfl⟩

/-- An outcome with a change of its state. -/
def mapState (change : σ → σ) : EStateM.Result ε σ α → EStateM.Result ε σ α
  | .ok value state => .ok value (change state)
  | .error failure state => .error failure (change state)

/-- After a success the next action runs from the state that it left. -/
theorem bind_of_ok {action : EStateM ε σ α} {next : α → EStateM ε σ β} {start middle : σ}
    {value : α} (ran : action start = .ok value middle) :
    (action >>= next) start = next value middle := by
  change EStateM.bind action next start = _
  simp only [EStateM.bind, ran]

/-- After a failure no action runs. -/
theorem bind_of_error {action : EStateM ε σ α} {next : α → EStateM ε σ β} {start middle : σ}
    {failure : ε} (ran : action start = .error failure middle) :
    (action >>= next) start = .error failure middle := by
  change EStateM.bind action next start = _
  simp only [EStateM.bind, ran]

/-- If two actions succeed one after the other, each of them succeeds. -/
theorem bind_eq_ok {action : EStateM ε σ α} {next : α → EStateM ε σ β} {start last : σ}
    {result : β} (ran : (action >>= next) start = .ok result last) :
    ∃ value middle, action start = .ok value middle ∧ next value middle = .ok result last := by
  cases first : action start with
  | ok value middle =>
      rw [bind_of_ok first] at ran
      exact ⟨value, middle, rfl, ran⟩
  | error failure middle =>
      rw [bind_of_error first] at ran
      cases ran

/-- Reading the state gives it to the next action. -/
theorem get_bind (next : σ → EStateM ε σ β) (start : σ) :
    (get >>= next) start = next start start := rfl

end OffsideScript
