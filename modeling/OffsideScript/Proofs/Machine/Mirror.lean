import OffsideScript.Proofs.Machine.Analysis
import OffsideScript.Proofs.Machine.Blind
import OffsideScript.Proofs.Machine.Trace

namespace OffsideScript

/-- The environment that a locator finds for a reference, if this environment binds the name. -/
def Machine.place (machine : Machine) (locator : Locator) (node : NodeId) (name : String) :
    Option EnvironmentRef :=
  (locator machine.heap machine.environment machine.globals node name).filter
    (machine.heap.binds · name)

/-- Two locators find the same variable for the reference that a visit comes to. -/
def Visit.Agrees (locator : Locator) (visit : Visit) : Prop :=
  match visit.node with
  | .expression (.variable node name) | .target node name =>
      visit.machine.place locator node name.lexeme =
        visit.machine.place visit.machine.locator node name.lexeme
  | _ => True

namespace Exec

/-- Reading a variable depends on the locator only through the environment that binds it. -/
theorem read_eq (node : NodeId) (name : Token) (machine : Machine) :
    read node name machine =
      match (machine.place machine.locator node name.lexeme).bind
          (machine.heap.get? · name.lexeme) with
      | some value => .ok value machine
      | none => fail name (.undefinedVariable name.lexeme) machine := by
  have found : (machine.place machine.locator node name.lexeme).bind
      (machine.heap.get? · name.lexeme) =
      (machine.locator machine.heap machine.environment machine.globals node name.lexeme).bind
        (machine.heap.get? · name.lexeme) := by
    unfold Machine.place
    cases machine.locator machine.heap machine.environment machine.globals node name.lexeme with
    | none => rfl
    | some ref =>
        cases bound : machine.heap.get? ref name.lexeme <;>
          simp [Option.filter, Heap.binds, bound]
  rw [found]
  change (match (machine.locator machine.heap machine.environment machine.globals node
      name.lexeme).bind (machine.heap.get? · name.lexeme) with
    | some value => (pure value : Exec Value)
    | none => fail name (.undefinedVariable name.lexeme)) machine = _
  cases (machine.locator machine.heap machine.environment machine.globals node
      name.lexeme).bind (machine.heap.get? · name.lexeme) <;> rfl

/-- Assigning a variable depends on the locator only through the environment that binds it. -/
theorem assign_eq (node : NodeId) (name : Token) (value : Value) (machine : Machine) :
    assign node name value machine =
      match machine.place machine.locator node name.lexeme with
      | some ref => .ok () (machine.mapHeap (·.define ref name.lexeme value))
      | none => fail name (.undefinedVariable name.lexeme) machine := by
  unfold Machine.place
  change (match machine.locator machine.heap machine.environment machine.globals node
      name.lexeme with
    | some ref => (do
        if (← get).heap.binds ref name.lexeme then
          modify (Machine.mapHeap · (·.define ref name.lexeme value))
        else fail name (.undefinedVariable name.lexeme) : Exec Unit)
    | none => fail name (.undefinedVariable name.lexeme)) machine = _
  cases machine.locator machine.heap machine.environment machine.globals node name.lexeme with
  | none => rfl
  | some ref =>
      change (if machine.heap.binds ref name.lexeme then
          (modify (Machine.mapHeap · (·.define ref name.lexeme value)) : Exec Unit)
        else fail name (.undefinedVariable name.lexeme)) machine = _
      by_cases bound : machine.heap.binds ref name.lexeme
      · simp only [Option.filter, bound, if_true]
        rfl
      · simp only [Option.filter, bound, if_false, Bool.false_eq_true]

end Exec

/-- Steady actions do not use the locator. -/
theorem Primitive.Steady.blind {α : Type} {primitive : Primitive α} (steady : primitive.Steady) :
    Exec.Blind primitive.perform := by
  obtain ⟨token, action, elementary, same⟩ := steady.elementary
  rw [same]
  exact elementary.blind token

namespace Traced

variable {α β : Type} {locator : Locator}

/-- A steady action is recorded as it is. -/
theorem perform_steady (around : Surroundings) {primitive : Primitive α}
    (steady : primitive.Steady) : perform around primitive = lift primitive.perform := by
  refine perform_eq_lift around ?_
  cases primitive <;> first | rfl | cases steady

/-- A look at the depths is recorded as it is. -/
theorem perform_depth (around : Surroundings) {step : Statement} {depth : Primitive Nat}
    {token : Token} {reason : RuntimeError.Reason} (leaves : step.Leaves depth token reason) :
    perform around depth = lift (do return step.depth (← get)) := by
  rw [← leaves.perform_eq]
  refine perform_eq_lift around ?_
  cases leaves <;> rfl

/-- The outcome of a recorded action, seen by a machine with a given locator. -/
def erased (locator : Locator) :
    EStateM.Result Halt Tracer α → EStateM.Result Halt Machine α
  | .ok value tracer => .ok value (tracer.machine.relocate locator)
  | .error halt tracer => .error halt (tracer.machine.relocate locator)

/-- An action that is recorded as it is makes no visit. -/
theorem lift_visits (action : Exec α) (tracer : Tracer) :
    (finalState (lift action tracer)).visits = tracer.visits := by
  unfold lift
  cases action tracer.machine <;> rfl

/-- An action that is recorded as it is has its own outcome. -/
theorem erased_lift (action : Exec α) (tracer : Tracer) :
    erased locator (lift action tracer) = Exec.relocated locator (action tracer.machine) := by
  unfold lift
  cases action tracer.machine <;> rfl

/-- A plain action does what a recorded action does, if the locator agrees with the locator of the
recorded run at all visits. -/
structure Mirrors (locator : Locator) (recorded : Traced α) (plain : Exec α) : Prop where
  grows : ∀ tracer : Tracer, tracer.visits <:+ (finalState (recorded tracer)).visits
  same : ∀ tracer : Tracer,
    (∀ visit ∈ (finalState (recorded tracer)).visits, visit.Agrees locator) →
      plain (tracer.machine.relocate locator) = erased locator (recorded tracer)

namespace Mirrors

theorem pure (value : α) : Mirrors locator (pure value) (pure value) :=
  ⟨fun _ => List.suffix_rfl, fun _ _ => rfl⟩

/-- A halt is mirrored. -/
theorem throw (halt : Halt) :
    Mirrors locator (throw halt : Traced α) (MonadExcept.throw halt : Exec α) :=
  ⟨fun _ => List.suffix_rfl, fun _ _ => rfl⟩

/-- An action that does not use the locator mirrors itself. -/
theorem lift {action : Exec α}
    (relocate : ∀ machine : Machine,
      action (machine.relocate locator) = Exec.relocated locator (action machine)) :
    Mirrors locator (lift action) action := by
  constructor
  · intro tracer
    rewrite [lift_visits]
    exact List.suffix_rfl
  · intro tracer _
    rw [relocate, erased_lift]

/-- Blind actions mirror themselves. -/
theorem blind {action : Exec α} (blind : Exec.Blind action) :
    Mirrors locator (Traced.lift action) action :=
  .lift fun machine => blind.relocate machine locator

/-- Actions that are mirrored are so one after another. Later visits are put in front, so what agrees at the
end agreed in the middle. -/
theorem bind {recorded : Traced α} {plain : Exec α} {next : α → Traced β}
    {plainNext : α → Exec β} (first : Mirrors locator recorded plain)
    (second : ∀ value, Mirrors locator (next value) (plainNext value)) :
    Mirrors locator (recorded >>= next) (plain >>= plainNext) := by
  constructor
  · intro tracer
    have before := first.grows tracer
    cases ran : recorded tracer with
    | ok value middle =>
        rw [ran] at before
        rw [bind_of_ok ran]
        exact before.trans ((second value).grows middle)
    | error halt middle =>
        rw [ran] at before
        rw [bind_of_error ran]
        exact before
  · intro tracer agree
    have same := first.same tracer
    cases ran : recorded tracer with
    | ok value middle =>
        rw [ran] at same
        rw [bind_of_ok ran] at agree ⊢
        have early : ∀ visit ∈ middle.visits, visit.Agrees locator := fun visit member =>
          agree visit (((second value).grows middle).subset member)
        rw [bind_of_ok (same early)]
        exact (second value).same middle agree
    | error halt middle =>
        rw [ran] at same
        rw [bind_of_error ran] at agree ⊢
        rw [bind_of_error (same agree)]
        rfl

/-- A visit leaves no mark on the machine. -/
theorem visit {recorded : Traced α} {plain : Exec α} (scopes : Scopes) (node : Site.Node)
    (rest : Mirrors locator recorded plain) :
    Mirrors locator (do visit scopes node; recorded) plain := by
  constructor
  · intro tracer
    exact (List.suffix_cons _ _).trans (rest.grows
      { tracer with visits := ⟨scopes, node, tracer.machine⟩ :: tracer.visits })
  · intro tracer agree
    exact rest.same _ agree

/-- The scopes of a function leave no mark on the machine. -/
theorem settle {recorded : Traced α} {plain : Exec α} (scopes : Scopes)
    (rest : Mirrors locator recorded plain) :
    Mirrors locator (do settle scopes; recorded) plain :=
  ⟨fun tracer => rest.grows { tracer with homes := tracer.homes ++ [scopes] },
    fun tracer agree => rest.same { tracer with homes := tracer.homes ++ [scopes] } agree⟩

/-- Looking up the scopes of a function leaves no mark on the machine. -/
theorem home {recorded : Scopes → Traced α} {plain : Exec α} (ref : FunctionRef)
    (rest : ∀ scopes, Mirrors locator (recorded scopes) plain) :
    Mirrors locator (do recorded (← home ref)) plain :=
  ⟨fun _ => (rest _).grows _, fun _ agree => (rest _).same _ agree⟩

/-- A setting is entered and left in the same way. -/
theorem inside {recorded : Traced α} {plain : Exec α} (setting : Setting)
    (rest : Mirrors locator recorded plain) :
    Mirrors locator (inside setting recorded) (setting.around plain) := by
  have entering (machine : Machine) :
      setting.enter (machine.relocate locator) = (setting.enter machine).relocate locator := by
    cases setting <;> rfl
  have leaving (environment : EnvironmentRef) (loopDepth : Nat) (machine : Machine) :
      setting.leave environment loopDepth (machine.relocate locator) =
        (setting.leave environment loopDepth machine).relocate locator := by
    cases setting <;> rfl
  constructor
  · intro tracer
    have grows := rest.grows { tracer with machine := setting.enter tracer.machine }
    unfold Traced.inside
    cases ran : recorded { tracer with machine := setting.enter tracer.machine } <;>
      (rw [ran] at grows; exact grows)
  · intro tracer agree
    have same := rest.same { tracer with machine := setting.enter tracer.machine }
    unfold Traced.inside at agree ⊢
    unfold Setting.around Exec.around
    rw [entering]
    cases ran : recorded { tracer with machine := setting.enter tracer.machine } <;>
      (rw [ran] at same agree; rw [same agree]; simp only [erased, mapState, leaving]; rfl)

/-- At an agreeing visit a variable is read alike. -/
theorem read (scopes : Scopes) (node : NodeId) (name : Token) :
    Mirrors locator
      (do Traced.visit scopes (.expression (.variable node name))
          Traced.lift (Exec.read node name))
      (Exec.read node name) := by
  constructor
  · intro tracer
    change _ <:+ (finalState (Traced.lift (Exec.read node name) _)).visits
    rw [lift_visits]
    exact List.suffix_cons _ _
  · intro tracer agree
    change ∀ visit ∈ (finalState (Traced.lift (Exec.read node name) _)).visits, _ at agree
    rw [lift_visits] at agree
    have found : tracer.machine.place locator node name.lexeme =
        tracer.machine.place tracer.machine.locator node name.lexeme :=
      agree _ List.mem_cons_self
    change _ = erased locator (Traced.lift (Exec.read node name) _)
    rw [erased_lift, Exec.read_eq, Exec.read_eq]
    change (match (tracer.machine.place locator node name.lexeme).bind
        (tracer.machine.heap.get? · name.lexeme) with
      | some value => _
      | none => _) = _
    rw [found]
    cases (tracer.machine.place tracer.machine.locator node name.lexeme).bind
      (tracer.machine.heap.get? · name.lexeme) <;> rfl

/-- At an agreeing visit a variable is assigned alike. -/
theorem assign (scopes : Scopes) (node : NodeId) (name : Token) (value : Value) :
    Mirrors locator
      (do Traced.visit scopes (.target node name)
          Traced.lift (Exec.assign node name value))
      (Exec.assign node name value) := by
  constructor
  · intro tracer
    change _ <:+ (finalState (Traced.lift (Exec.assign node name value) _)).visits
    rw [lift_visits]
    exact List.suffix_cons _ _
  · intro tracer agree
    change ∀ visit ∈ (finalState (Traced.lift (Exec.assign node name value) _)).visits, _ at agree
    rw [lift_visits] at agree
    have found : tracer.machine.place locator node name.lexeme =
        tracer.machine.place tracer.machine.locator node name.lexeme :=
      agree _ List.mem_cons_self
    change _ = erased locator (Traced.lift (Exec.assign node name value) _)
    rw [erased_lift, Exec.assign_eq, Exec.assign_eq]
    change (match tracer.machine.place locator node name.lexeme with
      | some value => _
      | none => _) = _
    rw [found]
    cases tracer.machine.place tracer.machine.locator node name.lexeme <;> rfl

end Mirrors

/-- A recorded action mirrors the action. -/
theorem perform_mirrors (locator : Locator) (around : Surroundings) (primitive : Primitive α) :
    Mirrors locator (perform around primitive) primitive.perform := by
  cases primitive with
  | read node name => exact .read around.scopes node name
  | assign node name value => exact .assign around.scopes node name value
  | newFunction name parameters body =>
      have made : Mirrors locator (Traced.lift (Exec.newFunction name parameters body))
        (Exec.newFunction name parameters body) := .lift fun _ => rfl
      exact made.bind fun value => .settle _ (.pure value)
  | closure? | callDepth | loopDepth | environment | newEnvironment | define =>
      rw [perform_eq_lift around rfl]
      exact .lift fun _ => rfl
  | fail token reason =>
      rw [perform_eq_lift around rfl]
      exact .blind (.fail token reason)
  | _ =>
      rw [perform_eq_lift around rfl]
      exact .blind (Primitive.Steady.blind trivial)

/-- The arrival at a request leaves no mark on the machine. -/
theorem Mirrors.arrive {recorded : Traced β} {plain : Exec β} (around : Surroundings)
    (request : Request α) (rest : Mirrors locator recorded plain) :
    Mirrors locator (do arrive around request; recorded) plain := by
  have silent : Mirrors locator (do Pure.pure (); recorded) plain := rest
  cases request with
  | evaluate expression =>
      cases expression with
      | «variable» node name => exact silent
      | _ => exact .visit _ _ rest
  | execute statement => exact .visit _ _ rest
  | _ => exact silent

/-- Code is mirrored if its requests are. -/
theorem code_mirrors (locator : Locator) (around : Surroundings) (fuel : Nat)
    {answer : {β : Type} → Setting → Request β → Traced β}
    (answers : ∀ {β : Type} (setting : Setting) (asked : Request β),
      Mirrors locator (answer setting asked) (setting.around (asked.run fuel))) (code : Code α) :
    Mirrors locator (code.interpret .recording around answer) (code.run fuel) := by
  induction code with
  | done value => exact .pure value
  | act primitive next ih => exact (perform_mirrors locator around primitive).bind ih
  | ask setting request next ih => exact (answers setting request).bind ih

/-- Recorded and plain evaluation agree with any fuel. -/
theorem request_mirrors (locator : Locator) (fuel : Nat) (around : Surroundings)
    (request : Request α) :
    Mirrors locator (request.interpret .recording fuel around) (request.run fuel) := by
  induction fuel generalizing α around with
  | zero => cases request <;> exact .throw _
  | succ fuel below =>
      rw [Request.run_succ]
      refine .arrive around request (code_mirrors locator around fuel (fun setting asked => ?_) _)
      have answered (inner : Surroundings) : Mirrors locator
          (Traced.inside setting (asked.interpret .recording fuel inner))
          (setting.around (asked.run fuel)) := .inside setting (below inner asked)
      unfold Interpretation.ask
      split
      · exact .home _ fun scopes => answered _
      · exact answered _

/-- Programs are mirrored. -/
theorem program_mirrors (locator : Locator) (fuel : Nat) (around : Surroundings)
    (program : Program) :
    Mirrors locator (program.interpret .recording fuel around)
      (Exec.executeProgram fuel program) := by
  induction program generalizing around with
  | nil => exact .pure _
  | cons statement rest ih =>
      exact (request_mirrors locator fuel around (.execute statement)).bind fun _ => ih _

end Traced

/-- A run with another locator is the recorded run, if the locators find the same variables at all
visits. -/
theorem Machine.interpret_eq_trace (fuel : Nat) (program : Program) (locator other : Locator)
    (machine : Machine)
    (agree : ∀ visit ∈ (machine.trace fuel program locator).2.visits, visit.Agrees other) :
    machine.interpret fuel program other =
      ((machine.trace fuel program locator).1,
        (machine.trace fuel program locator).2.machine.relocate other) := by
  have mirrors := (Traced.program_mirrors other fuel .outermost program).same
    ⟨machine.ready locator, [], []⟩
  unfold Machine.interpret
  unfold Machine.trace at agree ⊢
  cases ran : program.interpret .recording fuel .outermost ⟨machine.ready locator, [], []⟩ <;>
    (rw [ran] at mirrors agree
     rw [show machine.ready other = (machine.ready locator).relocate other from rfl,
       mirrors agree]
     rfl)

end OffsideScript
