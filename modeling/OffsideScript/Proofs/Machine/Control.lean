import OffsideScript.Proofs.Machine.Analysis
import OffsideScript.Proofs.Outcome

namespace OffsideScript

/-- Two machines are at the same place of a program and find the same variables from there. -/
structure Machine.SameControl (before after : Machine) : Prop where
  environment : after.environment = before.environment
  callDepth : after.callDepth = before.callDepth
  loopDepth : after.loopDepth = before.loopDepth
  globals : after.globals = before.globals
  locator : after.locator = before.locator

theorem Machine.SameControl.refl (machine : Machine) : machine.SameControl machine :=
  ⟨rfl, rfl, rfl, rfl, rfl⟩

theorem Machine.SameControl.trans {first second third : Machine}
    (left : first.SameControl second) (right : second.SameControl third) :
    first.SameControl third :=
  ⟨right.environment.trans left.environment, right.callDepth.trans left.callDepth,
    right.loopDepth.trans left.loopDepth, right.globals.trans left.globals,
    right.locator.trans left.locator⟩

/-- What comes back to the control state inside a setting does so outside of it too. -/
theorem Setting.leave_control (setting : Setting) (machine after : Machine)
    (kept : (setting.enter machine).SameControl after) :
    machine.SameControl (setting.leave machine.environment machine.loopDepth after) := by
  obtain ⟨environment, callDepth, loopDepth, globals, locator⟩ := kept
  cases setting with
  | here => exact ⟨environment, callDepth, loopDepth, globals, locator⟩
  | within _ => exact ⟨rfl, callDepth, loopDepth, globals, locator⟩
  | loop => exact ⟨environment, callDepth, congrArg (· - 1) loopDepth, globals, locator⟩
  | call _ => exact ⟨rfl, congrArg (· - 1) callDepth, rfl, globals, locator⟩

/-- The ends of a statement that the calls and loops around it can catch. -/
def Flow.Caught (calls loops : Nat) : Flow → Prop
  | .normal => True
  | .returned _ => 0 < calls
  | .broke => 0 < loops
  | .continued => 0 < loops

namespace Exec

variable {α β : Type}

/-- An inert action keeps the control state and does not complain about the place of a statement. -/
structure Inert (action : Exec α) : Prop where
  control : ∀ machine : Machine, machine.SameControl (finalState (action machine))
  placed : ∀ machine error after, action machine = .error (.error error) after →
    ¬error.reason.IsMisplacement

namespace Inert

/-- Inert actions are inert one after another. -/
theorem bind {action : Exec α} {next : α → Exec β} (first : Inert action)
    (second : ∀ value, Inert (next value)) : Inert (action >>= next) := by
  constructor
  · intro machine
    have before := first.control machine
    cases ran : action machine with
    | ok value middle =>
        rw [ran] at before
        rw [bind_of_ok ran]
        exact before.trans ((second value).control middle)
    | error halt middle =>
        rw [ran] at before
        rw [bind_of_error ran]
        exact before
  · intro machine error after failed
    cases ran : action machine with
    | ok value middle =>
        rw [bind_of_ok ran] at failed
        exact (second value).placed middle error after failed
    | error halt middle =>
        rw [bind_of_error ran] at failed
        cases failed
        exact first.placed machine error _ ran

/-- An action that cannot fail is inert if it keeps the control state. -/
theorem of_ok {action : Exec α}
    (succeeds : ∀ machine : Machine, ∃ value after, action machine = .ok value after ∧
      machine.SameControl after) : Inert action := by
  constructor
  · intro machine
    obtain ⟨value, after, ran, same⟩ := succeeds machine
    rw [ran]
    exact same
  · intro machine error after failed
    obtain ⟨value, other, ran, _⟩ := succeeds machine
    rw [ran] at failed
    cases failed

theorem pure (value : α) : Inert (pure value) :=
  .of_ok fun machine => ⟨value, machine, rfl, .refl machine⟩

/-- An error that is not about the place of a statement is inert. -/
theorem fail (token : Token) {reason : RuntimeError.Reason} (placed : ¬reason.IsMisplacement) :
    Inert (fail token reason : Exec α) := by
  constructor
  · exact fun machine => .refl machine
  · intro machine error after failed
    cases failed
    exact placed

/-- Printing is inert. -/
theorem print (token : Token) (value : Value) : Inert (print token value) := by
  constructor
  · intro machine
    unfold Exec.print
    dsimp only
    split <;> exact ⟨rfl, rfl, rfl, rfl, rfl⟩
  · intro machine error after failed
    unfold Exec.print at failed
    dsimp only at failed
    split at failed
    · cases failed
    · cases failed
      exact not_false

/-- A builtin is inert. -/
theorem perform (token : Token) (builtin : Builtin) (arguments : List Value) :
    Inert (perform token builtin arguments) := by
  constructor
  · intro machine
    unfold Exec.perform
    cases builtin.action arguments machine.host <;> exact ⟨rfl, rfl, rfl, rfl, rfl⟩
  · intro machine error after failed
    unfold Exec.perform at failed
    cases ran : builtin.action arguments machine.host with
    | ok value host =>
        rw [ran] at failed
        cases failed
    | error reason host =>
        rw [ran] at failed
        cases failed
        exact not_false

/-- An action may depend on the machine that it starts on. -/
theorem get {action : Machine → Exec α} (inert : ∀ machine, Inert (action machine)) :
    Inert (do action (← get)) :=
  ⟨fun machine => (inert machine).control machine,
    fun machine => (inert machine).placed machine⟩

/-- The call of a builtin is inert. -/
theorem callBuiltin (token : Token) (ref : BuiltinRef) (arguments : List Value) :
    Inert (callBuiltin token ref arguments) := by
  have arity : Inert (checkArity token ref.arity arguments.length) := by
    unfold checkArity
    split
    · exact .pure _
    · exact .fail _ not_false
  refine arity.bind fun _ => .get fun machine => ?_
  cases machine.library[ref.slot]? with
  | none => exact .pure _
  | some builtin => exact .perform token builtin arguments

/-- Making a function is inert. -/
theorem newFunction (name : Token) (parameters : List Token) (body : List Statement) :
    Inert (newFunction name parameters body) :=
  .of_ok fun _ => ⟨_, _, rfl, rfl, rfl, rfl, rfl, rfl⟩

/-- Making an environment is inert. -/
theorem newEnvironment (bindings : Bindings) (parent : EnvironmentRef) :
    Inert (newEnvironment bindings parent) :=
  .of_ok fun _ => ⟨_, _, rfl, rfl, rfl, rfl, rfl, rfl⟩

/-- A definition is inert. -/
theorem define (name : String) (value : Value) : Inert (define name value) :=
  .of_ok fun _ => ⟨_, _, rfl, rfl, rfl, rfl, rfl, rfl⟩

/-- Reading a variable is inert. -/
theorem read (node : NodeId) (name : Token) : Inert (read node name) := by
  refine Inert.bind (.get fun machine => .pure _) fun place => .get fun machine => ?_
  dsimp only
  split
  · exact .pure _
  · exact .fail _ not_false

/-- Assigning a variable is inert. -/
theorem assign (node : NodeId) (name : Token) (value : Value) :
    Inert (assign node name value) := by
  refine Inert.bind (.get fun machine => .pure _) fun place => ?_
  cases place with
  | none => exact .fail _ not_false
  | some ref =>
      refine .get fun machine => ?_
      split
      · exact .of_ok fun _ => ⟨_, _, rfl, rfl, rfl, rfl, rfl, rfl⟩
      · exact .fail _ not_false

end Inert

/-- Elementary actions are inert. -/
theorem Elementary.inert {action : Token → Exec α} (elementary : Elementary action)
    (token : Token) : Inert (action token) := by
  induction elementary with
  | fail reason placed => exact .fail token placed
  | bind _ _ first second => exact first.bind second
  | heap step _ => exact .of_ok fun _ => ⟨_, _, rfl, rfl, rfl, rfl, rfl, rfl⟩
  | print value => exact .print token value
  | callBuiltin ref arguments => exact .callBuiltin token ref arguments

/-- An action that starts inside the given numbers of calls and loops comes back to its control state,
however it ends, and yields what is allowed. -/
structure Returns (calls loops : Nat) (action : Exec α) (allowed : α → Prop) : Prop where
  control : ∀ machine : Machine, machine.callDepth = calls → machine.loopDepth = loops →
    machine.SameControl (finalState (action machine))
  allows : ∀ machine : Machine, machine.callDepth = calls → machine.loopDepth = loops →
    ∀ value after, action machine = .ok value after → allowed value

namespace Returns

variable {calls loops : Nat} {action : Exec α} {next : α → Exec β} {middle : α → Prop}
  {allowed : β → Prop}

/-- Actions that come back do so one after another. -/
theorem bind (first : Returns calls loops action middle)
    (second : ∀ value, middle value → Returns calls loops (next value) allowed) :
    Returns calls loops (action >>= next) allowed := by
  constructor
  · intro machine sameCalls sameLoops
    have before := first.control machine sameCalls sameLoops
    cases ran : action machine with
    | ok value between =>
        rw [ran] at before
        rw [bind_of_ok ran]
        have permitted := first.allows machine sameCalls sameLoops value between ran
        exact before.trans ((second value permitted).control between
          (before.callDepth.trans sameCalls) (before.loopDepth.trans sameLoops))
    | error halt between =>
        rw [ran] at before
        rw [bind_of_error ran]
        exact before
  · intro machine sameCalls sameLoops result after ran
    have before := first.control machine sameCalls sameLoops
    obtain ⟨value, between, started, continued⟩ := bind_eq_ok ran
    rw [started] at before
    have permitted := first.allows machine sameCalls sameLoops value between started
    exact (second value permitted).allows between (before.callDepth.trans sameCalls)
      (before.loopDepth.trans sameLoops) result after continued

/-- An inert action comes back and yields what is allowed. -/
theorem inert {action : Exec β} (inert : Inert action)
    (allows : ∀ machine value after, action machine = .ok value after → allowed value) :
    Returns calls loops action allowed :=
  ⟨fun machine _ _ => inert.control machine, fun machine _ _ => allows machine⟩

/-- What an inert action yields may not matter. -/
theorem after {action : Exec α} (inert : Inert action)
    (second : ∀ value, Returns calls loops (next value) allowed) :
    Returns calls loops (action >>= next) allowed :=
  (Returns.inert inert fun _ _ _ _ => trivial).bind fun value (_ : True) => second value

theorem pure {value : β} (permitted : allowed value) :
    Returns calls loops (pure value) allowed := by
  refine ⟨fun machine _ _ => .refl machine, fun machine _ _ result after ran => ?_⟩
  cases ran
  exact permitted

/-- More may be allowed of an action that comes back. -/
theorem mono {action : Exec β} {more : β → Prop} (returns : Returns calls loops action allowed)
    (implies : ∀ value, allowed value → more value) : Returns calls loops action more :=
  ⟨returns.control, fun machine sameCalls sameLoops value after ran =>
    implies value (returns.allows machine sameCalls sameLoops value after ran)⟩

/-- Any halt comes back. -/
theorem throw (halt : Halt) : Returns calls loops (throw halt : Exec β) allowed :=
  ⟨fun machine _ _ => .refl machine, fun _ _ _ _ _ ran => by cases ran⟩

/-- An action may use the depths of the machine that it starts on. -/
theorem get {action : Machine → Exec β}
    (returns : ∀ machine : Machine, machine.callDepth = calls → machine.loopDepth = loops →
      Returns calls loops (action machine) allowed) :
    Returns calls loops (do action (← get)) allowed :=
  ⟨fun machine sameCalls sameLoops =>
      (returns machine sameCalls sameLoops).control machine sameCalls sameLoops,
    fun machine sameCalls sameLoops =>
      (returns machine sameCalls sameLoops).allows machine sameCalls sameLoops⟩

/-- A change of the control state that is undone at the end comes back to where it started. -/
theorem around {action : Exec β} {innerCalls innerLoops : Nat} {enter : Machine → Machine}
    {leave : Machine → Machine → Machine} (inner : Returns innerCalls innerLoops action allowed)
    (entering : ∀ machine : Machine, machine.callDepth = calls → machine.loopDepth = loops →
      (enter machine).callDepth = innerCalls ∧ (enter machine).loopDepth = innerLoops)
    (leaving : ∀ machine after, (enter machine).SameControl after →
      machine.SameControl (leave machine after)) :
    Returns calls loops (around enter leave action) allowed := by
  constructor
  · intro machine sameCalls sameLoops
    obtain ⟨innerSame, outerSame⟩ := entering machine sameCalls sameLoops
    have kept := inner.control (enter machine) innerSame outerSame
    unfold Exec.around
    cases ran : action (enter machine) <;>
      (rw [ran] at kept; exact leaving machine _ kept)
  · intro machine sameCalls sameLoops value last ran
    obtain ⟨innerSame, outerSame⟩ := entering machine sameCalls sameLoops
    unfold Exec.around at ran
    cases inside : action (enter machine) with
    | ok result after =>
        rw [inside] at ran
        cases ran
        exact inner.allows (enter machine) innerSame outerSame _ _ inside
    | error halt after =>
        rw [inside] at ran
        cases ran

/-- A setting that leads into other numbers of calls and loops is left again. -/
theorem inside {action : Exec β} {innerCalls innerLoops : Nat} {setting : Setting}
    (inner : Returns innerCalls innerLoops action allowed)
    (entering : ∀ machine : Machine, machine.callDepth = calls → machine.loopDepth = loops →
      (setting.enter machine).callDepth = innerCalls ∧
        (setting.enter machine).loopDepth = innerLoops) :
    Returns calls loops (setting.around action) allowed :=
  inner.around entering fun machine after => setting.leave_control machine after

end Returns

end Exec

/-- Steady actions are inert. -/
theorem Primitive.Steady.inert {α : Type} {primitive : Primitive α} (steady : primitive.Steady) :
    Exec.Inert primitive.perform := by
  obtain ⟨token, action, elementary, same⟩ := steady.elementary
  rw [same]
  exact elementary.inert token

/-- The numbers of calls and loops around a statement have what its context says. -/
structure Context.Inside (context : Context) (calls loops : Nat) : Prop where
  function : context.inFunction = true → 0 < calls
  loop : context.inLoop = true → 0 < loops

/-- The surroundings of a node with the numbers of calls and loops around it. -/
structure Nesting where
  around : Surroundings
  calls : Nat
  loops : Nat
  inside : around.context.Inside calls loops

namespace Nesting

/-- Statements may leave what they are inside of. -/
def terrain : Terrain Nesting where
  surroundings := around
  bind place name complete :=
    ⟨place.around.bind name complete, place.calls, place.loops, place.inside⟩
  looping place :=
    ⟨place.around.looping, place.calls, place.loops + 1,
      ⟨place.inside.function, fun _ => Nat.succ_pos place.loops⟩⟩
  surroundings_bind _ _ _ := rfl
  surroundings_looping _ := rfl
  suits _ _ := True
  parts _ _ := trivial
  Called place := 0 < place.calls
  Looped place := 0 < place.loops
  called_bind := id
  looped_bind := id
  called_looping := id
  Good _ := True
  plain _ _ := trivial

/-- Every request may be made at every place. -/
theorem terrain_suits {α : Type} (place : Nesting) (request : Request α) :
    terrain.Suits place request := by
  cases request with
  | evaluateAll | executeBranches => exact fun _ _ => by simp [terrain]
  | evaluateEntries => exact ⟨fun _ _ => ⟨trivial, trivial⟩, fun _ _ => ⟨trivial, trivial⟩⟩
  | call => exact ⟨trivial, fun _ _ => trivial⟩
  | repeatBody => exact ⟨trivial, trivial⟩
  | _ => trivial

/-- Numbers of calls and loops around a node with a context that asks for none. -/
def free (calls loops : Nat) : Nesting :=
  ⟨⟨⟨false, false⟩, [[]]⟩, calls, loops, Bool.noConfusion, Bool.noConfusion⟩

/-- The body of a function is inside of one more call, and no loop around the call encloses it. -/
def called (place : Nesting) (scopes : Scopes) : Nesting :=
  ⟨.ofFunction scopes, place.calls + 1, 0, fun _ => Nat.succ_pos place.calls, Bool.noConfusion⟩

/-- The first statement of a block. -/
def opening (place : Nesting) : Nesting :=
  ⟨place.around.opening, place.calls, place.loops, place.inside⟩

/-- Inside of a call or a loop a statement may leave it. -/
theorem mayLeave (place : Nesting) {machine : Machine} {step : Statement}
    (calls : machine.callDepth = place.calls) (loops : machine.loopDepth = place.loops)
    (deep : step.depth machine ≠ 0) : terrain.MayLeave place step := by
  cases step with
  | ret keyword value => exact Nat.lt_of_lt_of_eq (Nat.pos_of_ne_zero deep) calls
  | breakLoop keyword => exact Nat.lt_of_lt_of_eq (Nat.pos_of_ne_zero deep) loops
  | continueLoop keyword => exact Nat.lt_of_lt_of_eq (Nat.pos_of_ne_zero deep) loops
  | _ => trivial

/-- There is a place inside the same numbers of calls and loops where something holds. -/
def Near (place : Nesting) (holds : Nesting → Prop) : Prop :=
  ∃ later, later.calls = place.calls ∧ later.loops = place.loops ∧ holds later

end Nesting

namespace Exec

/-- An action comes back to its control state, and what it yields is allowed at some place inside the same calls
and loops. -/
def ReturnsNear (place : Nesting) (action : Exec α) (post : α → Nesting → Prop) : Prop :=
  Returns place.calls place.loops action fun value => place.Near (post value)

namespace ReturnsNear

variable {place : Nesting} {action : Exec α} {post : α → Nesting → Prop}

/-- The next action starts near where the first one ended. -/
theorem next {next : α → Exec β} {middle : α → Nesting → Prop} {post : β → Nesting → Prop}
    (first : ReturnsNear place action middle)
    (second : ∀ value later, middle value later → ReturnsNear later (next value) post) :
    ReturnsNear place (action >>= next) post := by
  refine Returns.bind first fun value near => ?_
  obtain ⟨later, sameCalls, sameLoops, holds⟩ := near
  have following := second value later holds
  unfold ReturnsNear Nesting.Near at following
  rw [sameCalls, sameLoops] at following
  exact following

/-- What is shown at an inner place holds of an action that enters it. -/
theorem inside {inner : Nesting} {setting : Setting} {middle post : α → Nesting → Prop}
    (shown : ReturnsNear inner action middle)
    (entering : ∀ machine : Machine, machine.callDepth = place.calls →
      machine.loopDepth = place.loops → (setting.enter machine).callDepth = inner.calls ∧
        (setting.enter machine).loopDepth = inner.loops)
    (implies : ∀ value, inner.Near (middle value) → post value place) :
    ReturnsNear place (setting.around action) post :=
  (Returns.inside shown entering).mono fun value holds => ⟨place, rfl, rfl, implies value holds⟩

/-- A leaving statement that gets past its test may leave. -/
theorem leave {step : Statement} {depth : Primitive Nat} {token : Token}
    {reason : RuntimeError.Reason} {action : Exec Flow} {post : Flow → Nesting → Prop}
    (leaves : step.Leaves depth token reason)
    (shown : Nesting.terrain.MayLeave place step → ReturnsNear place action post) :
    ReturnsNear place (do
      if (← depth.perform) = 0 then Exec.fail token reason else action) post := by
  rw [leaves.perform_eq]
  simp only [bind_assoc, pure_bind]
  refine Returns.get fun machine sameCalls sameLoops => ?_
  split
  · exact .throw _
  · rename_i apart
    exact shown (place.mayLeave sameCalls sameLoops apart)

/-- The body of a loop is inside of one more loop. -/
theorem loop {action : Exec Flow} {allowed : Flow → Prop}
    (shown : ReturnsNear (Nesting.terrain.looping place) action fun flow later =>
      later = Nesting.terrain.looping place ∧ allowed flow) :
    ReturnsNear place (Setting.loop.around action)
      fun flow later => later = place ∧ allowed flow := by
  refine shown.inside (fun machine calls loops => ⟨calls, congrArg (· + 1) loops⟩) ?_
  rintro flow ⟨later, _, _, _, holds⟩
  exact ⟨rfl, holds⟩

/-- A block is inside the same calls and loops. -/
theorem block {action : Exec Flow}
    (shown : ReturnsNear place.opening action fun flow _ => Nesting.terrain.Ends place.opening flow) :
    ReturnsNear place (do
      let parent ← Primitive.environment.perform
      let environment ← (Primitive.newEnvironment [] parent).perform
      (Setting.within environment).around action)
      fun flow later => later = place ∧ Nesting.terrain.Ends place flow := by
  refine .after (.get fun machine => .pure _) fun parent => ?_
  refine .after (.newEnvironment [] parent) fun environment => ?_
  refine inside shown (fun machine calls loops => ⟨calls, loops⟩) ?_
  rintro flow ⟨later, _, _, ends⟩
  exact ⟨rfl, ends⟩

/-- A call comes back from the body of its function. -/
theorem call {closing : Token} {ref : FunctionRef} {arguments : List Value}
    {answer : {β : Type} → Surroundings → Request β → Exec β}
    (answers : ∀ (inner : Nesting) (block : List Statement),
      ReturnsNear inner (answer inner.around (.executeAll block))
        fun flow _ => Nesting.terrain.Ends inner flow) :
    ReturnsNear place
      (Interpretation.plain.step answer place.around (.call closing (.function ref) arguments))
      fun value later => later = place ∧ Nesting.terrain.Good value := by
  have settled {value : Value} : place.Near fun later =>
      later = place ∧ Nesting.terrain.Good value := ⟨place, rfl, rfl, rfl, trivial⟩
  rw [Interpretation.step_call]
  refine .after (.get fun machine => .pure _) fun found => ?_
  cases found with
  | none => exact .pure settled
  | some closure =>
      refine .after ((Elementary.checkArity _ _).inert closing) fun _ => ?_
      refine .after (.get fun machine => .pure _) fun depth => ?_
      split
      · exact .throw _
      · refine .after (.newEnvironment _ _) fun environment => .after (.pure _) fun scopes => ?_
        have body := answers (place.called scopes) closure.body
        exact (Returns.inside body fun machine calls _ => ⟨congrArg (· + 1) calls, rfl⟩).bind
          fun flow _ => .pure settled

end ReturnsNear

/-- Every run comes back to its control state and ends only in what can be caught. -/
def returning : Analysis .plain Nesting where
  toTerrain := Nesting.terrain
  Shows := ReturnsNear
  pure holds := .pure ⟨_, rfl, rfl, holds⟩
  next := ReturnsNear.next
  exhausted := .throw _
  arrive _ := .pure ⟨_, rfl, rfl, rfl⟩
  perform steady _ := .inert steady.inert fun _ _ _ ran =>
    ⟨_, rfl, rfl, rfl, Primitive.gives_of_ok (fun _ => trivial) ran⟩
  read _ := .inert (.read _ _) fun _ _ _ _ => ⟨_, rfl, rfl, rfl, trivial⟩
  assign _ _ := .inert (.assign _ _ _) fun _ _ _ _ => ⟨_, rfl, rfl, rfl⟩
  initial _ shown := shown.mono fun _ _ => ⟨_, rfl, rfl, rfl, trivial⟩
  define _ _ := .inert (.define _ _) fun _ _ _ _ => ⟨Nesting.terrain.bind _ _ true, rfl, rfl, rfl⟩
  function _ := .inert (.bind (.newFunction _ _ _) fun _ => .define _ _)
    fun _ _ _ _ => ⟨Nesting.terrain.bind _ _ true, rfl, rfl, rfl⟩
  leave _ leaves shown := .leave leaves shown
  loop := .loop
  block _ shown := .block (shown _ rfl trivial)
  call _ _ answers := .call fun inner block => answers inner block trivial

/-- Every request comes back to its control state. -/
theorem request_returns (fuel calls loops : Nat) (request : Request α) :
    ReturnsNear (.free calls loops) (request.run fuel)
      (Nesting.terrain.Yields (.free calls loops) request) := by
  have shown := returning.request fuel (.free calls loops) request
    (Nesting.terrain_suits _ request)
  rw [Request.interpret_plain] at shown
  exact shown

/-- Every program comes back to its control state. -/
theorem executeProgram_returns (fuel : Nat) (program : Program) (calls loops : Nat) :
    Returns calls loops (executeProgram fuel program) fun _ => True := by
  have shown := returning.program fuel (.free calls loops) program trivial
  rw [Program.interpret_plain] at shown
  exact shown.mono fun _ _ => trivial

/-- The ends that are allowed at a place can be caught there. -/
theorem caught_of_ends {place : Nesting} {flow : Flow} (ends : Nesting.terrain.Ends place flow) :
    flow.Caught place.calls place.loops := by
  cases flow with
  | normal => trivial
  | returned value => exact ends.1
  | broke => exact ends
  | continued => exact ends

/-- A statement ends only in what can be caught. -/
theorem execute_caught (fuel calls loops : Nat) (statement : Statement) :
    Returns calls loops (execute fuel statement) (Flow.Caught calls loops) := by
  refine (request_returns fuel calls loops (.execute statement)).mono ?_
  rintro flow ⟨_, _, _, _, ends⟩
  exact caught_of_ends ends

/-- A block ends only in what can be caught. -/
theorem executeBody_caught (fuel calls loops : Nat) (body : List Statement) :
    Returns calls loops (executeBody fuel body) (Flow.Caught calls loops) := by
  refine (request_returns fuel calls loops (.executeBody body)).mono ?_
  rintro flow ⟨_, _, _, _, ends⟩
  exact caught_of_ends ends

/-- The body of a function runs inside one more call and outside of all loops. -/
theorem inCall_caught (fuel calls loops : Nat) (environment : EnvironmentRef) (body : List Statement) :
    Returns calls loops (inCall (within environment (executeAll fuel body)))
      (Flow.Caught (calls + 1) 0) := by
  have inner := request_returns fuel (calls + 1) 0 (.executeAll body)
  rw [← Setting.around_call]
  refine (Returns.inside inner fun machine sameCalls _ =>
    ⟨congrArg (· + 1) sameCalls, rfl⟩).mono ?_
  rintro flow ⟨_, _, _, ends⟩
  exact caught_of_ends ends

/-- A statement, or a block of them, ends in a return only inside of a call, and in a break or a continue only
inside of a loop. Hence a program sees nothing but normal ends of its statements, and the body of a function never
breaks or continues a loop of its caller. -/
theorem execute_flow_caught (fuel : Nat) :
    (∀ statement machine flow after, execute fuel statement machine = .ok flow after →
      flow.Caught machine.callDepth machine.loopDepth) ∧
    (∀ body machine flow after, executeBody fuel body machine = .ok flow after →
      flow.Caught machine.callDepth machine.loopDepth) ∧
    (∀ before statement locator (machine middle : Machine) flow after,
      executeProgram fuel before (machine.ready locator) = .ok () middle →
      execute fuel statement middle = .ok flow after → flow = .normal) ∧
    ∀ (closure : Closure) environment machine flow after,
      inCall (within environment (executeAll fuel closure.body)) machine = .ok flow after →
      flow ≠ .broke ∧ flow ≠ .continued := by
  refine ⟨fun statement machine flow after ran =>
    (execute_caught fuel _ _ statement).allows machine rfl rfl flow after ran,
    fun body machine flow after ran =>
      (executeBody_caught fuel _ _ body).allows machine rfl rfl flow after ran, ?_, ?_⟩
  · intro before statement locator machine middle flow after started ran
    have kept := (executeProgram_returns fuel before 0 0).control (machine.ready locator) rfl rfl
    rw [started] at kept
    have caught := (execute_caught fuel 0 0 statement).allows middle
      kept.callDepth kept.loopDepth flow after ran
    cases flow with
    | normal => rfl
    | _ => exact absurd caught (Nat.lt_irrefl 0)
  · intro closure environment machine flow after ran
    have caught := (inCall_caught fuel machine.callDepth machine.loopDepth environment
      closure.body).allows machine rfl rfl flow after ran
    constructor
    · rintro rfl
      exact Nat.lt_irrefl 0 caught
    · rintro rfl
      exact Nat.lt_irrefl 0 caught

/-- A function that breaks its own loop does not break the loop that it is called from. -/
theorem execute_flow_caught_breaking :
    let keyword : Token := .structural .newline 1
    let body : List Statement := [.loop (.constant (.boolean true)) [.breakLoop keyword]]
    let machine := { Machine.bare ⟨[], [], true⟩ (.still 0) (.empty none) with loopDepth := 1 }
    (∃ flow after, execute 8 (.breakLoop keyword) machine = .ok flow after ∧ flow = .broke ∧
      flow.Caught machine.callDepth machine.loopDepth) ∧
    (∃ flow after, executeBody 8 [.breakLoop keyword] machine = .ok flow after ∧ flow = .broke ∧
      flow.Caught machine.callDepth machine.loopDepth) ∧
    (∃ middle flow after, executeProgram 8 body (machine.ready machine.locator) = .ok () middle ∧
      execute 8 (.evaluate (.constant .nihl)) middle = .ok flow after ∧ flow = .normal) ∧
    ∃ flow after, inCall (within machine.globals (executeAll 8 body)) machine = .ok flow after ∧
      flow ≠ .broke ∧ flow ≠ .continued := by
  intro keyword body machine
  have broken : execute 8 (.breakLoop keyword) machine = .ok .broke machine := rfl
  have left : ∃ after, executeBody 8 [.breakLoop keyword] machine = .ok .broke after := ⟨_, rfl⟩
  obtain ⟨outside, left⟩ := left
  obtain ⟨⟨⟩, middle, looped⟩ := exists_of_succeeded (show succeeded
    (executeProgram 8 body (machine.ready machine.locator)) = true by decide +kernel)
  have normal : execute 8 (.evaluate (.constant .nihl)) middle = .ok .normal middle := rfl
  obtain ⟨flow, after, ended⟩ := exists_of_succeeded (show succeeded
    (inCall (within machine.globals (executeAll 8 body)) machine) = true by decide +kernel)
  exact ⟨⟨_, _, broken, rfl, (execute_flow_caught 8).1 _ _ _ _ broken⟩,
    ⟨_, _, left, rfl, (execute_flow_caught 8).2.1 _ _ _ _ left⟩,
    ⟨_, _, _, looped, normal, (execute_flow_caught 8).2.2.1 _ _ _ _ _ _ _ looped normal⟩,
    ⟨_, _, ended, (execute_flow_caught 8).2.2.2 ⟨keyword, [], body, machine.globals⟩ _ _ _ _ ended⟩⟩

/-- However a statement, a body, an expression or a call ends, by running to its end, by leaving a call or a
loop, or in an error at any depth, the machine is back in the environment, the calls and the loops that it
started in, and finds variables as it did. -/
theorem control_restored (fuel : Nat) (machine : Machine) :
    (∀ statement, machine.SameControl (finalState (execute fuel statement machine))) ∧
    (∀ body, machine.SameControl (finalState (executeBody fuel body machine))) ∧
    (∀ expression, machine.SameControl (finalState (evaluate fuel expression machine))) ∧
    ∀ closing callee arguments,
      machine.SameControl (finalState (call fuel closing callee arguments machine)) := by
  refine ⟨fun statement => ?_, fun body => ?_, fun expression => ?_,
    fun closing callee arguments => ?_⟩
  · exact (request_returns fuel _ _ (.execute statement)).control machine rfl rfl
  · exact (request_returns fuel _ _ (.executeBody body)).control machine rfl rfl
  · exact (request_returns fuel _ _ (.evaluate expression)).control machine rfl rfl
  · exact (request_returns fuel _ _ (.call closing callee arguments)).control machine rfl rfl

end Exec

end OffsideScript
