/-
This file runs code one step at a time and shows that this is the run of the evaluator: it ends as the
evaluator does with enough fuel, and as long as it has not ended, the evaluator needs more. A configuration is
a point of a run, so statements about all points of a run are about the configurations that it comes to.
-/

import OffsideScript.Proofs.Machine.Code

namespace OffsideScript

/-- The requests that a run is carrying out, innermost first: where each was made and what follows with
its result. -/
inductive Stack : Type → Type 1 where
  | nil : Stack Unit
  | frame {α β : Type} (setting : Setting) (environment : EnvironmentRef) (loopDepth : Nat)
      (next : α → Code β) (rest : Stack β) : Stack α

/-- What a run is about to do: go on with some code, or give up because of an error. -/
inductive Control (α : Type) : Type 1 where
  | running (code : Code α)
  | failed (error : RuntimeError)

/-- A point of a run: what it is about to do, the requests in progress, and the machine. -/
structure Configuration where
  {α : Type}
  control : Control α
  stack : Stack α
  machine : Machine

variable {α β : Type}

namespace Configuration

/-- One step of a run: a primitive action, the beginning of a request, or the return from one. -/
inductive Step : Configuration → Configuration → Prop where
  | act {α β : Type} {primitive : Primitive β} {next : β → Code α} {stack : Stack α}
      {machine after : Machine} {value : β} (ran : primitive.perform machine = .ok value after) :
      Step ⟨.running (.act primitive next), stack, machine⟩ ⟨.running (next value), stack, after⟩
  | fail {α β : Type} {primitive : Primitive β} {next : β → Code α} {stack : Stack α}
      {machine after : Machine} {error : RuntimeError}
      (ran : primitive.perform machine = .error (.error error) after) :
      Step ⟨.running (.act primitive next), stack, machine⟩ ⟨.failed error, stack, after⟩
  | enter {α β : Type} (setting : Setting) (request : Request β) (next : β → Code α)
      (stack : Stack α) (machine : Machine) :
      Step ⟨.running (.ask setting request next), stack, machine⟩
        ⟨.running request.code,
          .frame setting machine.environment machine.loopDepth next stack, setting.enter machine⟩
  | resume {α β : Type} (value : β) (setting : Setting) (environment : EnvironmentRef)
      (loopDepth : Nat) (next : β → Code α) (rest : Stack α) (machine : Machine) :
      Step ⟨.running (.done value), .frame setting environment loopDepth next rest, machine⟩
        ⟨.running (next value), rest, setting.leave environment loopDepth machine⟩
  | unwind {α β : Type} (error : RuntimeError) (setting : Setting) (environment : EnvironmentRef)
      (loopDepth : Nat) (next : β → Code α) (rest : Stack α) (machine : Machine) :
      Step ⟨.failed error, .frame setting environment loopDepth next rest, machine⟩
        ⟨.failed error, rest, setting.leave environment loopDepth machine⟩

/-- A run comes from one configuration to another in a number of steps. -/
inductive Steps : Nat → Configuration → Configuration → Prop where
  | refl (point : Configuration) : Steps 0 point point
  | step {count : Nat} {first second last : Configuration} (next : Step first second)
      (rest : Steps count second last) : Steps (count + 1) first last

/-- A run comes through one configuration and later, or at once, through another. -/
def Comes (first last : Configuration) : Prop :=
  ∃ count, Steps count first last

/-- The end of a run. -/
def ended : Option RuntimeError → Machine → Configuration
  | none, machine => ⟨.running (.done ()), .nil, machine⟩
  | some error, machine => ⟨(.failed error : Control Unit), .nil, machine⟩

end Configuration

/-- The first configuration of the run of a program. -/
def Machine.launch (machine : Machine) (program : Program) (locator : Locator) : Configuration :=
  ⟨.running program.code, .nil, machine.ready locator⟩

/-- The run of a program ends: with enough fuel, the evaluator finishes or fails in the same way. -/
def Machine.Ends (machine : Machine) (program : Program) (locator : Locator)
    (failure : Option RuntimeError) (after : Machine) : Prop :=
  ∃ enough, ∀ fuel, enough ≤ fuel →
    machine.interpret fuel program locator = (failure.map .error, after)

namespace Exec

/-- A prompt action does not run out of fuel. -/
def Prompt (action : Exec α) : Prop :=
  ∀ machine after, action machine ≠ .error .outOfFuel after

namespace Prompt

/-- Prompt actions are prompt one after another. -/
theorem bind {action : Exec α} {next : α → Exec β} (first : Prompt action)
    (second : ∀ value, Prompt (next value)) : Prompt (action >>= next) := by
  intro machine after failed
  cases ran : action machine with
  | ok value middle =>
      rw [bind_of_ok ran] at failed
      exact second value middle after failed
  | error halt middle =>
      rw [bind_of_error ran] at failed
      cases failed
      exact first machine after ran

/-- An error is not a lack of fuel. -/
theorem fail (token : Token) (reason : RuntimeError.Reason) :
    Prompt (fail token reason : Exec α) := nofun

theorem pure (value : α) : Prompt (pure value) := nofun

/-- Looking at the machine takes no fuel. -/
theorem get {action : Machine → Exec α} (prompt : ∀ machine, Prompt (action machine)) :
    Prompt (do action (← get)) :=
  fun machine => prompt machine machine

/-- Printing takes no fuel. -/
theorem print (keyword : Token) (value : Value) : Prompt (print keyword value) := by
  intro machine after failed
  unfold Exec.print at failed
  dsimp only at failed
  split at failed <;> cases failed

/-- The test for the number of arguments takes no fuel. -/
theorem checkArity (closing : Token) (expected found : Nat) :
    Prompt (checkArity closing expected found) := by
  unfold Exec.checkArity
  split
  · exact .pure _
  · exact .fail _ _

/-- The call of a builtin takes no fuel. -/
theorem callBuiltin (closing : Token) (ref : BuiltinRef) (arguments : List Value) :
    Prompt (callBuiltin closing ref arguments) := by
  refine (checkArity closing ref.arity arguments.length).bind fun _ => .get fun machine => ?_
  cases machine.library[ref.slot]? with
  | none => exact .pure _
  | some builtin =>
      intro machine after failed
      change perform closing builtin arguments machine = _ at failed
      unfold Exec.perform at failed
      cases ran : builtin.action arguments machine.host <;> (rw [ran] at failed; cases failed)

/-- Reading a variable takes no fuel. -/
theorem read (node : NodeId) (name : Token) : Prompt (read node name) := by
  refine Prompt.bind (.get fun machine => .pure _) fun place => .get fun machine => ?_
  dsimp only
  split
  · exact .pure _
  · exact .fail _ _

/-- Assigning a variable takes no fuel. -/
theorem assign (node : NodeId) (name : Token) (value : Value) :
    Prompt (assign node name value) := by
  refine Prompt.bind (.get fun machine => .pure _) fun place => ?_
  cases place with
  | none => exact .fail _ _
  | some ref =>
      refine .get fun machine => ?_
      split
      · exact nofun
      · exact .fail _ _

end Prompt

/-- Elementary actions are prompt. -/
theorem Elementary.prompt {action : Token → Exec α} (elementary : Elementary action)
    (token : Token) : Prompt (action token) := by
  induction elementary with
  | fail reason placed => exact .fail token reason
  | bind _ _ first second => exact first.bind second
  | heap step _ => exact nofun
  | print value => exact .print token value
  | callBuiltin ref arguments => exact .callBuiltin token ref arguments

end Exec

/-- No primitive action runs out of fuel. -/
theorem Primitive.prompt (primitive : Primitive α) : Exec.Prompt primitive.perform := by
  by_cases operation : primitive.isOperation = true
  · obtain ⟨token, action, soundless, same⟩ := Primitive.soundless operation
    rw [same]
    exact soundless.elementary.prompt token
  · cases primitive with
    | fail token reason => exact .fail token reason
    | read node name => exact .read node name
    | assign node name value => exact .assign node name value
    | print keyword value => exact .print keyword value
    | unary | binary | expectContainer | element | checkElement | setElement | callBuiltin
    | checkArity => exact absurd rfl operation
    | _ => exact nofun

namespace Configuration

/-- A run has at most one way on. -/
theorem Step.unique {point first second : Configuration} (one : Step point first)
    (other : Step point second) : first = second := by
  cases one with
  | act ran =>
      cases other with
      | act same => cases ran.symm.trans same; rfl
      | fail same => cases ran.symm.trans same
  | fail ran =>
      cases other with
      | act same => cases ran.symm.trans same
      | fail same => cases ran.symm.trans same; rfl
  | enter => cases other; rfl
  | resume => cases other; rfl
  | unwind => cases other; rfl

namespace Steps

variable {first middle last : Configuration} {count more : Nat}

theorem trans (before : Steps count first middle) (after : Steps more middle last) :
    Steps (count + more) first last := by
  induction before with
  | refl => simpa using after
  | step next _ ih =>
      rw [Nat.add_right_comm]
      exact .step next (ih after)

/-- A run has one way on, so a longer part of it begins with every shorter one. -/
theorem remainder (short : Steps count first middle) (long : Steps more first last)
    (le : count ≤ more) : Steps (more - count) middle last := by
  induction short generalizing more with
  | refl => exact long
  | step next _ ih =>
      cases long with
      | refl => omega
      | step other rest =>
          cases next.unique other
          rw [Nat.add_sub_add_right]
          exact ih rest (by omega)

end Steps

namespace Comes

variable {first middle last : Configuration}

theorem refl (point : Configuration) : Comes point point := ⟨0, .refl point⟩

theorem trans (before : Comes first middle) (after : Comes middle last) : Comes first last := by
  obtain ⟨count, before⟩ := before
  obtain ⟨more, after⟩ := after
  exact ⟨count + more, before.trans after⟩

/-- A step and what comes after it. -/
theorem step (next : Step first middle) (after : Comes middle last) : Comes first last := by
  obtain ⟨count, after⟩ := after
  exact ⟨count + 1, .step next after⟩

/-- A single step. -/
theorem single (next : Step first last) : Comes first last := step next (refl last)

/-- Of two configurations of one run, one comes after the other. -/
theorem total (one : Comes first middle) (other : Comes first last) :
    Comes middle last ∨ Comes last middle := by
  obtain ⟨count, one⟩ := one
  obtain ⟨more, other⟩ := other
  cases Nat.le_total count more with
  | inl le => exact .inl ⟨_, one.remainder other le⟩
  | inr le => exact .inr ⟨_, other.remainder one le⟩

end Comes

/-- What a run comes to from a configuration, where the evaluator ends as given with some fuel. -/
def Follows (start : Configuration) (stack : Stack α) (fuel : Nat) :
    EStateM.Result Halt Machine α → Prop
  | .ok value after => Comes start ⟨.running (.done value), stack, after⟩
  | .error (.error error) after => Comes start ⟨.failed error, stack, after⟩
  | .error .outOfFuel after =>
      ∃ count point, fuel ≤ count ∧ Steps count start point ∧
        point.machine.host = after.host ∧ point.machine.sink = after.sink

namespace Follows

variable {first middle : Configuration} {stack : Stack α} {fuel : Nat}
  {result : EStateM.Result Halt Machine α}

/-- What follows a later configuration follows the earlier ones. -/
theorem after (before : Comes first middle) (follows : Follows middle stack fuel result) :
    Follows first stack fuel result := by
  cases result with
  | ok value last => exact before.trans follows
  | error halt last =>
      cases halt with
      | error error => exact before.trans follows
      | outOfFuel =>
          obtain ⟨count, before⟩ := before
          obtain ⟨more, point, enough, steps, same⟩ := follows
          exact ⟨count + more, point, by omega, before.trans steps, same⟩

end Follows

/-- The steps of code follow its evaluation, if those of its requests do. -/
theorem follows_code {fuel : Nat}
    (requests : ∀ {β : Type} (request : Request β) (stack : Stack β) (machine : Machine),
      Follows ⟨.running request.code, stack, machine⟩ stack fuel (request.run fuel machine))
    (code : Code α) (stack : Stack α) (machine : Machine) :
    Follows ⟨.running code, stack, machine⟩ stack (fuel + 1) (code.run fuel machine) := by
  induction code generalizing machine with
  | done value => exact .refl _
  | act primitive next ih =>
      rw [Code.run]
      cases ran : primitive.perform machine with
      | ok value middle =>
          rw [bind_of_ok ran]
          exact (ih value middle).after (.single (.act ran))
      | error halt middle =>
          rw [bind_of_error ran]
          cases halt with
          | error error => exact .single (.fail ran)
          | outOfFuel => exact absurd ran (primitive.prompt machine middle)
  | ask setting request next ih =>
      have begins := Step.enter setting request next stack machine
      have carried := requests request
        (.frame setting machine.environment machine.loopDepth next stack) (setting.enter machine)
      rw [Code.run]
      cases ran : request.run fuel (setting.enter machine) with
      | ok value middle =>
          rw [ran] at carried
          have around : setting.around (request.run fuel) machine =
              .ok value (setting.leave machine.environment machine.loopDepth middle) := by
            rw [Setting.around, Exec.around, ran]
            rfl
          rw [bind_of_ok around]
          exact (ih value _).after
            (.step begins (carried.trans (.single (.resume value _ _ _ _ _ _))))
      | error halt middle =>
          rw [ran] at carried
          have around : setting.around (request.run fuel) machine =
              .error halt (setting.leave machine.environment machine.loopDepth middle) := by
            rw [Setting.around, Exec.around, ran]
            rfl
          rw [bind_of_error around]
          cases halt with
          | error error =>
              exact .step begins (carried.trans (.single (.unwind error _ _ _ _ _ _)))
          | outOfFuel =>
              obtain ⟨count, point, enough, steps, host, sink⟩ := carried
              refine ⟨count + 1, point, by omega, .step begins steps, ?_⟩
              cases setting <;> exact ⟨host, sink⟩

/-- The steps of a request follow its evaluation, by induction on the fuel. -/
theorem follows_request (fuel : Nat) {β : Type} (request : Request β) (stack : Stack β)
    (machine : Machine) :
    Follows ⟨.running request.code, stack, machine⟩ stack fuel (request.run fuel machine) := by
  induction fuel generalizing β stack machine with
  | zero =>
      have stopped : request.run 0 machine = .error .outOfFuel machine := by
        cases request <;> rfl
      rw [stopped]
      exact ⟨0, _, Nat.le_refl 0, .refl _, rfl, rfl⟩
  | succ fuel ih =>
      rw [Request.run_succ]
      exact follows_code ih request.code stack machine

/-- A run comes through the first statements of a program to the others. -/
theorem comes_rest {fuel : Nat} {first rest : Program} {machine after : Machine}
    (ran : Exec.executeProgram fuel first machine = .ok () after) :
    Comes ⟨.running (Program.code (first ++ rest)), .nil, machine⟩
      ⟨.running rest.code, .nil, after⟩ := by
  induction first generalizing machine with
  | nil =>
      cases ran
      exact .refl _
  | cons statement first ih =>
      obtain ⟨flow, middle, executed, remaining⟩ := bind_eq_ok ran
      have carried := follows_request fuel (.execute statement)
        (.frame .here machine.environment machine.loopDepth
          (fun _ => Program.code (first ++ rest)) .nil) machine
      rw [show (Request.execute statement).run fuel machine = .ok flow middle from executed] at carried
      exact .step (.enter .here _ _ _ _)
        (carried.trans (.step (.resume flow .here _ _ _ _ _) (ih remaining)))

/-- How a configuration ends a run, if it does. -/
def outcome? : Configuration → Option (Option RuntimeError × Machine)
  | ⟨.running (.done _), .nil, machine⟩ => some (none, machine)
  | ⟨.failed error, .nil, machine⟩ => some (some error, machine)
  | _ => none

@[simp] theorem outcome?_ended (failure : Option RuntimeError) (machine : Machine) :
    (ended failure machine).outcome? = some (failure, machine) := by
  cases failure <;> rfl

/-- A configuration with a step has not ended. -/
theorem Step.outcome? {first second : Configuration} (next : Step first second) :
    first.outcome? = none := by
  cases next <;> rfl

/-- A run that has ended takes no step. -/
theorem Steps.of_outcome? {first last : Configuration} {count : Nat}
    {outcome : Option RuntimeError × Machine} (finished : first.outcome? = some outcome)
    (steps : Steps count first last) : count = 0 ∧ first = last := by
  cases steps with
  | refl => exact ⟨rfl, rfl⟩
  | step next _ => cases finished.symm.trans next.outcome?

/-- An error ends a run without any other effect. -/
theorem comes_unwound (error : RuntimeError) (stack : Stack α) (machine : Machine) :
    ∃ after, Comes ⟨.failed error, stack, machine⟩ (ended (some error) after) ∧
      after.host = machine.host ∧ after.sink = machine.sink := by
  induction stack generalizing machine with
  | nil => exact ⟨machine, .refl _, rfl, rfl⟩
  | frame setting environment loopDepth next rest ih =>
      obtain ⟨after, comes, host, sink⟩ := ih (setting.leave environment loopDepth machine)
      refine ⟨after, .step (.unwind error _ _ _ _ _ _) comes, ?_⟩
      rw [host, sink]
      cases setting <;> exact ⟨rfl, rfl⟩

/-- A run ends in one way. -/
theorem Comes.ended_unique {start : Configuration} {failure other : Option RuntimeError}
    {machine after : Machine} (one : start.Comes (ended failure machine))
    (another : start.Comes (ended other after)) : failure = other ∧ machine = after := by
  have same : ended failure machine = ended other after := by
    obtain ⟨count, steps⟩ | ⟨count, steps⟩ := one.total another
    · exact (steps.of_outcome? (outcome?_ended failure machine)).2
    · exact (steps.of_outcome? (outcome?_ended other after)).2.symm
  have outcome := congrArg Configuration.outcome? same
  simpa using outcome

end Configuration

namespace Machine

open OffsideScript.Configuration

/-- The evaluator carries out the steps of a run: all of them, or more than it has fuel, and then the heap and
the output are those of the point that it has come to. -/
theorem interpret_follows (fuel : Nat) (program : Program) (locator : Locator) (machine : Machine) :
    (∃ failure after, machine.interpret fuel program locator = (failure.map .error, after) ∧
      (machine.launch program locator).Comes (ended failure after)) ∨
    ∃ after count point, machine.interpret fuel program locator = (some .outOfFuel, after) ∧
      fuel < count ∧ Steps count (machine.launch program locator) point ∧
      point.machine.host = after.host ∧ point.machine.sink = after.sink := by
  have follows := follows_code (follows_request fuel) program.code .nil (machine.ready locator)
  rw [← Program.run_code] at follows
  rw [interpret]
  cases ran : Exec.executeProgram fuel program (machine.ready locator) with
  | ok value after =>
      rw [ran] at follows
      exact .inl ⟨none, after, rfl, follows⟩
  | error halt after =>
      rw [ran] at follows
      cases halt with
      | error error => exact .inl ⟨some error, after, rfl, follows⟩
      | outOfFuel =>
          obtain ⟨count, point, enough, steps, same⟩ := follows
          exact .inr ⟨after, count, point, rfl, enough, steps, same⟩

/-- The run of a program ends where its steps end. -/
theorem ends_iff {machine after : Machine} {program : Program} {locator : Locator}
    {failure : Option RuntimeError} :
    machine.Ends program locator failure after ↔
      (machine.launch program locator).Comes (ended failure after) := by
  constructor
  · rintro ⟨enough, ends⟩
    obtain ⟨found, last, ran, comes⟩ | ⟨last, _, _, ran, _⟩ :=
      interpret_follows enough program locator machine
    · have same := (ends enough (Nat.le_refl enough)).symm.trans ran
      cases failure <;> cases found <;> cases same <;> exact comes
    · have same := (ends enough (Nat.le_refl enough)).symm.trans ran
      cases failure <;> cases same
  · rintro ⟨enough, steps⟩
    refine ⟨enough, fun fuel le => ?_⟩
    obtain ⟨found, last, ran, comes⟩ | ⟨_, count, point, _, beyond, longer, _⟩ :=
      interpret_follows fuel program locator machine
    · obtain ⟨rfl, rfl⟩ := comes.ended_unique ⟨enough, steps⟩
      exact ran
    · have stopped := (steps.remainder longer (by omega)).of_outcome? (outcome?_ended failure after)
      omega

end Machine

end OffsideScript
