import OffsideScript.Proofs.Machine.Interpretation
import OffsideScript.Proofs.Scope.Site

namespace OffsideScript

/-- A node with the scopes around it and the machine that is about to run it. The value of an
assignment is known before the run comes to its target. -/
structure Visit where
  scopes : Scopes
  node : Site.Node
  machine : Machine

/-- A machine with its visits, latest first, and for each function the scopes of its body. -/
structure Tracer where
  machine : Machine
  visits : List Visit
  homes : List Scopes

/-- Actions that record the references they come to. -/
abbrev Traced := EStateM Halt Tracer

namespace Traced

/-- Performs an action on the machine alone. -/
def lift {α : Type} (action : Exec α) : Traced α := fun tracer =>
  match action tracer.machine with
  | .ok value machine => .ok value { tracer with machine }
  | .error halt machine => .error halt { tracer with machine }

/-- Records a visit of a node. -/
def visit (scopes : Scopes) (node : Site.Node) : Traced Unit :=
  modify fun tracer => { tracer with visits := ⟨scopes, node, tracer.machine⟩ :: tracer.visits }

/-- Records the scopes of the body of the function that was made last. -/
def settle (scopes : Scopes) : Traced Unit :=
  modify fun tracer => { tracer with homes := tracer.homes ++ [scopes] }

/-- The scopes of the body of a function. -/
def home (ref : FunctionRef) : Traced Scopes := do
  return ((← get).homes[ref.index]?).getD []

/-- Runs an action in a setting and comes back however the action ends. -/
def inside {α : Type} (setting : Setting) (action : Traced α) : Traced α := fun tracer =>
  let leave (machine : Machine) : Machine :=
    setting.leave tracer.machine.environment tracer.machine.loopDepth machine
  match action { tracer with machine := setting.enter tracer.machine } with
  | .ok result after => .ok result { after with machine := leave after.machine }
  | .error halt after => .error halt { after with machine := leave after.machine }

/-- An action inside no other setting is the action. -/
theorem inside_here {α : Type} (action : Traced α) : inside .here action = action := by
  funext tracer
  unfold inside
  change (match action tracer with
    | .ok result after => .ok result after
    | .error halt after => .error halt after : EStateM.Result Halt Tracer α) = _
  cases action tracer <;> rfl

/-- A variable is visited when it is read, and the target of an assignment when it is assigned. A function is
declared before its own body. -/
def perform (around : Surroundings) : {α : Type} → Primitive α → Traced α
  | _, .read node name => do
      visit around.scopes (.expression (.variable node name))
      lift (Exec.read node name)
  | _, .assign node name value => do
      visit around.scopes (.target node name)
      lift (Exec.assign node name value)
  | _, .newFunction name parameters body => do
      let value ← lift (Exec.newFunction name parameters body)
      settle (Scopes.ofParameters parameters :: around.scopes.bind name.lexeme true)
      return value
  | _, primitive => lift primitive.perform

/-- The actions that the record shows. -/
def isRecorded : {α : Type} → Primitive α → Bool
  | _, .read _ _ => true
  | _, .assign _ _ _ => true
  | _, .newFunction _ _ _ => true
  | _, _ => false

/-- Actions that the record does not show are carried out as they are. -/
theorem perform_eq_lift {α : Type} (around : Surroundings) {primitive : Primitive α}
    (unrecorded : isRecorded primitive = false) :
    perform around primitive = lift primitive.perform := by
  cases primitive <;> first | rfl | cases unrecorded

/-- The other expressions and all statements are visited before their code runs. -/
def arrive (around : Surroundings) : {α : Type} → Request α → Traced Unit
  | _, .evaluate (.variable _ _) => return ()
  | _, .evaluate expression => visit around.scopes (.expression expression)
  | _, .execute statement => visit around.scopes (.statement around.context statement)
  | _, _ => return ()

end Traced

/-- Evaluation that records where it is. -/
def Interpretation.recording : Interpretation Traced where
  perform around primitive := Traced.perform around primitive
  arrive around request := Traced.arrive around request
  home := Traced.home
  inside := Traced.inside
  exhausted := throw .outOfFuel
  inside_here := Traced.inside_here

/-- The recorded call of a function. It fails on the spot, or it runs the body under the scopes of its declaration. -/
theorem Traced.step_call (answer : {β : Type} → Surroundings → Request β → Traced β)
    (around : Surroundings) (closing : Token) (ref : FunctionRef) (arguments : List Value)
    (tracer : Tracer) :
    Interpretation.recording.step answer around (.call closing (.function ref) arguments) tracer =
      match tracer.machine.heap.closure? ref with
      | none => .ok .nihl tracer
      | some closure =>
          if closure.parameters.length ≠ arguments.length then
            .error (.error (.at closing
              (.arity closure.parameters.length arguments.length))) tracer
          else if Machine.maxCallDepth ≤ tracer.machine.callDepth then
            .error (.error (.at closing .stackOverflow)) tracer
          else
            (do let environment ← lift
                  (Exec.newEnvironment (closure.bindings arguments) closure.environment)
                let flow ← inside (.call environment) (answer
                  (.ofFunction ((tracer.homes[ref.index]?).getD [])) (.executeAll closure.body))
                return flow.result : Traced Value) tracer := by
  have found : Interpretation.recording.perform around (.closure? ref) tracer =
      .ok (tracer.machine.heap.closure? ref) tracer := rfl
  have depth : Interpretation.recording.perform around .callDepth tracer =
      .ok tracer.machine.callDepth tracer := rfl
  rw [Interpretation.step_call, bind_of_ok found]
  cases tracer.machine.heap.closure? ref with
  | none => rfl
  | some closure =>
      by_cases arity : closure.parameters.length = arguments.length
      · have passes : Interpretation.recording.perform around
            (.checkArity closing closure.parameters.length arguments.length) tracer =
              .ok () tracer := by
          change lift (Exec.checkArity _ _ _) tracer = _
          rw [Exec.checkArity, if_pos arity]
          rfl
        dsimp only
        rw [bind_of_ok passes, bind_of_ok depth, if_neg (not_not_intro arity)]
        split <;> rfl
      · have fails : Interpretation.recording.perform around
            (.checkArity closing closure.parameters.length arguments.length) tracer =
              .error (.error (.at closing
                (.arity closure.parameters.length arguments.length))) tracer := by
          change lift (Exec.checkArity _ _ _) tracer = _
          rw [Exec.checkArity, if_neg arity]
          rfl
        dsimp only
        rw [bind_of_error fails, if_pos arity]

/-- The surroundings of the first statement of a program. -/
def Surroundings.outermost : Surroundings :=
  ⟨⟨false, false⟩, [[]]⟩

/-- A recorded run of a program in the global environment of a machine without functions. -/
def Machine.trace (fuel : Nat) (program : Program) (locator : Locator) (machine : Machine) :
    Option Halt × Tracer :=
  match program.interpret .recording fuel .outermost ⟨machine.ready locator, [], []⟩ with
  | .ok _ after => (none, after)
  | .error halt after => (some halt, after)

/-- The trace ends where the recorded run ends. -/
theorem Machine.trace_final (fuel : Nat) (program : Program) (locator : Locator)
    (machine : Machine) :
    (machine.trace fuel program locator).2 =
      finalState (program.interpret .recording fuel .outermost ⟨machine.ready locator, [], []⟩) := by
  unfold Machine.trace
  cases program.interpret .recording fuel .outermost ⟨machine.ready locator, [], []⟩ <;> rfl

end OffsideScript
