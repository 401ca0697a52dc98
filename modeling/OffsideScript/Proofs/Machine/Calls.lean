import OffsideScript.Proofs.Machine.Blind
import OffsideScript.Proofs.Machine.Configuration
import OffsideScript.Proofs.Machine.Control
import OffsideScript.Proofs.Machine.Mirror

namespace OffsideScript

variable {α β : Type}

namespace Primitive

/-- What a primitive action can yield inside a number of calls, where all functions have good bodies. -/
def Yields (good : List Statement → Prop) (calls : Nat) : {α : Type} → Primitive α → α → Prop
  | _, .callDepth, depth => depth = calls
  | _, .closure? _, found => ∀ closure, found = some closure → good closure.body
  | _, _, _ => True

/-- A primitive action makes no functions but those with good bodies. -/
def Makes (good : List Statement → Prop) : {α : Type} → Primitive α → Prop
  | _, .newFunction _ _ body => good body
  | _, _ => True

/-- Primitive actions leave the depths and the environment as they are. -/
theorem sameControl (primitive : Primitive α) (machine : Machine) :
    machine.SameControl (finalState (primitive.perform machine)) := by
  by_cases operation : primitive.isOperation = true
  · obtain ⟨token, action, soundless, same⟩ := soundless operation
    rw [same]
    exact (soundless.elementary.inert token).control machine
  · cases primitive with
    | read node name => exact (Exec.Inert.read node name).control machine
    | assign node name value => exact (Exec.Inert.assign node name value).control machine
    | print keyword value => exact (Exec.Inert.print keyword value).control machine
    | unary | binary | expectContainer | element | checkElement | setElement | callBuiltin
    | checkArity => exact absurd rfl operation
    | _ => exact ⟨rfl, rfl, rfl, rfl, rfl⟩

end Primitive

/-- The functions of a machine have good bodies, and its builtins make no others. -/
structure Machine.HasBodies (good : List Statement → Prop) (machine : Machine) : Prop where
  tame : machine.Tame
  bodies : ∀ closure ∈ machine.heap.functions, good closure.body

namespace Machine.HasBodies

variable {good : List Statement → Prop} {machine after : Machine}

/-- A machine with the same functions and builtins has bodies as good. -/
theorem of_same (has : machine.HasBodies good) (library : after.library = machine.library)
    (functions : after.heap.functions = machine.heap.functions) : after.HasBodies good := by
  constructor
  · intro slot builtin found
    rw [library] at found
    exact has.tame slot builtin found
  · intro closure member
    rw [functions] at member
    exact has.bodies closure member

/-- Soundless actions make no functions. -/
theorem soundless {action : Token → Exec α} (soundless : Exec.Soundless action) (token : Token)
    (has : machine.HasBodies good) : (finalState (action token machine)).HasBodies good := by
  induction soundless generalizing machine with
  | fail reason placed => exact has
  | @bind _ _ action next _ _ first second =>
      have middle := first has
      change (finalState ((action token >>= fun value => next value token) machine)).HasBodies good
      cases ran : action token machine with
      | ok value between =>
          rw [ran] at middle
          rw [bind_of_ok ran]
          exact second value middle
      | error halt between =>
          rw [ran] at middle
          rw [bind_of_error ran]
          exact middle
  | heap step superficial => exact has.of_same rfl (superficial.functions machine.host.heap)
  | callBuiltin ref arguments =>
      have same := (Exec.callBuiltin_blind token ref arguments).steady machine has.tame
      exact has.of_same same.library same.functions

end Machine.HasBodies

/-- A primitive action that makes only good functions keeps all bodies good. -/
theorem Primitive.hasBodies {good : List Statement → Prop} {machine : Machine}
    (primitive : Primitive α) (makes : primitive.Makes good) (has : machine.HasBodies good) :
    (finalState (primitive.perform machine)).HasBodies good := by
  by_cases operation : primitive.isOperation = true
  · obtain ⟨token, action, soundless, same⟩ := Primitive.soundless operation
    rw [same]
    exact .soundless soundless token has
  · cases primitive with
    | read node name =>
        change (finalState (Exec.read node name machine)).HasBodies good
        rw [Exec.read_eq]
        cases (machine.place machine.locator node name.lexeme).bind
          (machine.heap.get? · name.lexeme) <;> exact has
    | assign node name value =>
        change (finalState (Exec.assign node name value machine)).HasBodies good
        rw [Exec.assign_eq]
        cases machine.place machine.locator node name.lexeme with
        | none => exact has
        | some ref => exact has.of_same rfl rfl
    | newFunction name parameters body =>
        refine ⟨has.tame, fun closure member => ?_⟩
        obtain old | rfl := Array.mem_push.mp member
        · exact has.bodies closure old
        · exact makes
    | print keyword value =>
        have same := (Exec.print_blind keyword value).steady machine has.tame
        exact has.of_same same.library same.functions
    | unary | binary | expectContainer | element | checkElement | setElement | callBuiltin
    | checkArity => exact absurd rfl operation
    | _ => exact has.of_same rfl rfl

/-- A primitive action yields only what it can. -/
theorem Primitive.yields {good : List Statement → Prop} {machine after : Machine} {value : α}
    {primitive : Primitive α} (bodies : ∀ closure ∈ machine.heap.functions, good closure.body)
    (ran : primitive.perform machine = .ok value after) :
    primitive.Yields good machine.callDepth value := by
  cases primitive with
  | callDepth =>
      cases ran
      rfl
  | closure? ref =>
      cases ran
      intro closure found
      exact bodies closure (Array.mem_of_getElem? found)
  | _ => trivial

namespace Code

variable {good : List Statement → Prop} {calls : Nat}
  {allowed : (β : Type) → Setting → Request β → Prop}

/-- Code that runs inside a number of calls, where all functions have good bodies, makes only such functions
and only allowed requests. -/
def Obeys (good : List Statement → Prop) (calls : Nat)
    (allowed : (β : Type) → Setting → Request β → Prop) : Code α → Prop
  | done _ => True
  | act primitive next =>
      primitive.Makes good ∧
        ∀ value, primitive.Yields good calls value → (next value).Obeys good calls allowed
  | ask setting request next =>
      allowed _ setting request ∧ ∀ value, (next value).Obeys good calls allowed

@[simp] theorem obeys_pure (value : α) : (pure value : Code α).Obeys good calls allowed :=
  trivial

@[simp] theorem obeys_perform_bind (primitive : Primitive β) (next : β → Code α) :
    (perform primitive >>= next).Obeys good calls allowed ↔
      primitive.Makes good ∧
        ∀ value, primitive.Yields good calls value → (next value).Obeys good calls allowed :=
  Iff.rfl

@[simp] theorem obeys_requestIn_bind (setting : Setting) (request : Request β)
    (next : β → Code α) :
    (requestIn setting request >>= next).Obeys good calls allowed ↔
      allowed _ setting request ∧ ∀ value, (next value).Obeys good calls allowed :=
  Iff.rfl

@[simp] theorem obeys_request_bind (request : Request β) (next : β → Code α) :
    (Code.request request >>= next).Obeys good calls allowed ↔
      allowed _ .here request ∧ ∀ value, (next value).Obeys good calls allowed :=
  Iff.rfl

@[simp] theorem obeys_perform (primitive : Primitive α) :
    (perform primitive).Obeys good calls allowed ↔ primitive.Makes good :=
  ⟨And.left, fun makes => ⟨makes, fun _ _ => trivial⟩⟩

@[simp] theorem obeys_requestIn (setting : Setting) (request : Request α) :
    (requestIn setting request).Obeys good calls allowed ↔ allowed _ setting request :=
  ⟨And.left, fun holds => ⟨holds, fun _ => trivial⟩⟩

@[simp] theorem obeys_request (request : Request α) :
    (Code.request request).Obeys good calls allowed ↔ allowed _ .here request :=
  obeys_requestIn .here request

@[simp] theorem obeys_ite (condition : Prop) [Decidable condition] (first second : Code α) :
    (if condition then first else second).Obeys good calls allowed ↔
      (condition → first.Obeys good calls allowed) ∧
        (¬condition → second.Obeys good calls allowed) := by
  split <;> simp [*]

end Code

/-- A call requests nothing but the body of its function, inside of one more call. -/
theorem Request.call_obeys {good : List Statement → Prop} {calls : Nat}
    {allowed : (β : Type) → Setting → Request β → Prop} (closing : Token) (callee : Value)
    (arguments : List Value)
    (enters : calls < Machine.maxCallDepth → ∀ environment body, good body →
      allowed Flow (.call environment) (.executeAll body)) :
    (code (.call closing callee arguments)).Obeys good calls allowed := by
  cases callee with
  | function ref =>
      rw [code, Code.obeys_perform_bind]
      refine ⟨trivial, fun found fine => ?_⟩
      cases found with
      | none => exact Code.obeys_pure _
      | some closure =>
          simp only [Code.obeys_perform_bind, Code.obeys_ite, Code.obeys_perform,
            Code.obeys_requestIn_bind]
          refine ⟨trivial, fun _ _ => ⟨trivial, fun depth same => ?_⟩⟩
          refine ⟨fun _ => trivial, fun room => ?_⟩
          have below : calls < Machine.maxCallDepth := Nat.lt_of_not_le (same ▸ room)
          refine ⟨trivial, fun environment _ => ⟨?_, fun flow => ?_⟩⟩
          · exact enters below environment closure.body (fine closure rfl)
          · cases flow <;> exact Code.obeys_pure _
  | _ => simp [code, Primitive.Makes]

/-- A call may begin inside fewer calls than the limit. -/
def Setting.Allowed (calls : Nat) : Setting → Prop
  | .call _ => calls < Machine.maxCallDepth
  | _ => True

/-- A setting that begins a call counts as one. -/
def Setting.calls : Setting → Nat
  | .call _ => 1
  | _ => 0

/-- The code of a function of the evaluator begins calls only within the limit. -/
def Code.Checked (calls : Nat) (code : Code α) : Prop :=
  code.Obeys (fun _ => True) calls fun _ setting _ => setting.Allowed calls

/-- Every function of the evaluator tests the limit before it begins a call. -/
theorem Request.code_checked (calls : Nat) (request : Request α) : request.code.Checked calls := by
  unfold Code.Checked
  cases request with
  | evaluate expression => cases expression <;> simp [code, Setting.Allowed, Primitive.Makes]
  | logical operator left right =>
      cases operator <;> cases left <;> simp [code, Setting.Allowed]
  | evaluateAll expressions => cases expressions <;> simp [code, Setting.Allowed]
  | evaluateEntries map entries => cases entries <;> simp [code, Setting.Allowed]
  | call closing callee arguments =>
      exact call_obeys closing callee arguments fun room _ _ _ => room
  | execute statement =>
      cases statement with
      | declare name initial | ret keyword initial =>
          cases initial <;> simp [code, Setting.Allowed, Primitive.Makes]
      | _ => simp [code, Setting.Allowed, Primitive.Makes]
  | executeAll statements =>
      cases statements with
      | nil => simp [code]
      | cons statement rest =>
          rw [code, Code.obeys_request_bind]
          refine ⟨trivial, fun flow => ?_⟩
          cases flow <;> simp [Setting.Allowed]
  | executeBody body => simp [code, Setting.Allowed, Primitive.Makes]
  | executeBranches branches => cases branches <;> simp [code, Setting.Allowed]
  | repeatBody condition body =>
      rw [code, Code.obeys_request_bind]
      refine ⟨trivial, fun holds => ?_⟩
      rw [Code.obeys_ite, Code.obeys_request_bind]
      refine ⟨fun _ => ⟨trivial, fun flow => ?_⟩, fun _ => Code.obeys_pure _⟩
      cases flow <;> simp [Setting.Allowed]

/-- A program begins no call by itself. -/
theorem Program.code_checked (calls : Nat) (program : Program) : program.code.Checked calls := by
  induction program with
  | nil => exact Code.obeys_pure ()
  | cons statement rest ih => exact ⟨trivial, fun _ => ih⟩

namespace Stack

/-- The number of calls in progress. -/
def calls : {α : Type} → Stack α → Nat
  | _, .nil => 0
  | _, .frame setting _ _ _ rest => rest.calls + setting.calls

/-- Every call in progress began within the limit, and what follows a request will do so, too. -/
def Checked : {α : Type} → Stack α → Prop
  | _, .nil => True
  | _, .frame setting _ _ next rest =>
      setting.Allowed rest.calls ∧ (∀ value, (next value).Checked rest.calls) ∧ rest.Checked

/-- The calls in progress are within the limit. -/
theorem Checked.calls_le {stack : Stack α} (checked : stack.Checked) :
    stack.calls ≤ Machine.maxCallDepth := by
  induction stack with
  | nil => exact Nat.zero_le _
  | frame setting environment loopDepth next rest ih =>
      have inner := ih checked.2.2
      cases setting with
      | call environment => exact checked.1
      | _ => exact inner

end Stack

namespace Configuration

/-- The machine counts the calls in progress, which are within the limit and stay there. -/
structure Counts (point : Configuration) : Prop where
  depth : point.machine.callDepth = point.stack.calls
  stack : point.stack.Checked
  code : ∀ code, point.control = .running code → code.Checked point.stack.calls

/-- A step keeps the count of the calls. -/
theorem Step.counts {first second : Configuration} (next : Step first second)
    (counts : first.Counts) : second.Counts := by
  have depth := counts.depth
  cases next with
  | @act _ _ primitive _ _ machine _ _ ran =>
      have same := (primitive.sameControl machine).callDepth
      rw [ran] at same
      refine ⟨same.trans depth, counts.stack, ?_⟩
      rintro _ ⟨⟩
      have yields : primitive.Yields (fun _ => True) machine.callDepth _ :=
        primitive.yields (fun _ _ => trivial) ran
      rw [depth] at yields
      exact (counts.code _ rfl).2 _ yields
  | @fail _ _ primitive _ _ machine _ _ ran =>
      have same := (primitive.sameControl machine).callDepth
      rw [ran] at same
      exact ⟨same.trans depth, counts.stack, nofun⟩
  | enter setting request next stack machine =>
      have asked := counts.code _ rfl
      refine ⟨?_, ⟨asked.1, asked.2, counts.stack⟩, ?_⟩
      · cases setting with
        | call environment => exact congrArg (· + 1) depth
        | _ => exact depth
      · rintro _ ⟨⟩
        exact request.code_checked _
  | resume value setting environment loopDepth next rest machine =>
      refine ⟨?_, counts.stack.2.2, ?_⟩
      · cases setting with
        | call environment => exact congrArg (· - 1) depth
        | _ => exact depth
      · rintro _ ⟨⟩
        exact counts.stack.2.1 value
  | unwind error setting environment loopDepth next rest machine =>
      refine ⟨?_, counts.stack.2.2, nofun⟩
      cases setting with
      | call environment => exact congrArg (· - 1) depth
      | _ => exact depth

/-- A run keeps the count of the calls. -/
theorem Comes.counts {first last : Configuration} (comes : first.Comes last)
    (counts : first.Counts) : last.Counts := by
  obtain ⟨count, steps⟩ := comes
  induction steps with
  | refl => exact counts
  | step next _ ih => exact ih (next.counts counts)

end Configuration

/-- At the start no call is in progress. -/
theorem Machine.launch_counts (machine : Machine) (program : Program) (locator : Locator) :
    (machine.launch program locator).Counts := by
  refine ⟨rfl, trivial, ?_⟩
  rintro _ ⟨⟩
  exact program.code_checked 0

section Calling

variable {closing : Token} {ref : FunctionRef} {arguments : List Value} {closure : Closure}
  {next : Value → Code α} {stack : Stack α} {machine : Machine}

/-- The right number of arguments passes the test. -/
theorem Exec.checkArity_of_eq {closing : Token} {expected found : Nat} (same : expected = found)
    (machine : Machine) : checkArity closing expected found machine = .ok () machine := by
  rw [checkArity, if_pos same]
  rfl

namespace Configuration

variable (closing arguments next stack) in
/-- A call within the limit comes to the body of its function, with its arguments in a new environment. -/
theorem comes_body (found : machine.heap.closure? ref = some closure)
    (arity : closure.parameters.length = arguments.length)
    (room : machine.callDepth < Machine.maxCallDepth) :
    let made := machine.heap.newEnvironment
      ⟨closure.bindings arguments, some closure.environment⟩
    ∃ last, Comes ⟨.running (.ask .here (.call closing (.function ref) arguments) next), stack,
        machine⟩
      ⟨.running (Request.code (.executeAll closure.body)),
        .frame (.call made.1) machine.environment machine.loopDepth last
          (.frame .here machine.environment machine.loopDepth next stack),
        (Setting.call made.1).enter { machine with host.heap := made.2 }⟩ := by
  intro made
  have looked : (Primitive.closure? ref).perform machine = .ok (some closure) machine := by
    rw [← found]
    rfl
  have accepted : (Primitive.checkArity closing closure.parameters.length
      arguments.length).perform machine = .ok () machine := Exec.checkArity_of_eq arity machine
  have bound : (Primitive.newEnvironment (closure.bindings arguments) closure.environment).perform
      machine = .ok made.1 { machine with host.heap := made.2 } := rfl
  apply Exists.intro
  apply Comes.step (.enter .here _ next stack machine)
  apply Comes.step (.act looked)
  apply Comes.step (.act accepted)
  apply Comes.step (.act rfl)
  dsimp only [Code.bind]
  rw [if_neg (Nat.not_le_of_lt room)]
  apply Comes.step (.act bound)
  exact .single (.enter _ _ _ _ _)

/-- A call inside as many calls as there may be fails before it changes anything. -/
theorem Counts.overflow
    (counts : Counts ⟨.running (.ask .here (.call closing (.function ref) arguments) next), stack,
      machine⟩)
    (found : machine.heap.closure? ref = some closure)
    (arity : closure.parameters.length = arguments.length)
    (full : stack.calls = Machine.maxCallDepth) :
    ∃ after, Comes ⟨.running (.ask .here (.call closing (.function ref) arguments) next), stack,
        machine⟩ (.ended (some (.at closing .stackOverflow)) after) ∧
      after.host = machine.host ∧ after.sink = machine.sink := by
  have limit : Machine.maxCallDepth ≤ machine.callDepth :=
    Nat.le_of_eq (full.symm.trans counts.depth.symm)
  have refused : (Request.call closing (.function ref) arguments).run 1 machine =
      .error (.error (.at closing .stackOverflow)) machine := by
    rw [Request.run, Exec.call, get_bind, found]
    dsimp only
    rw [bind_of_ok (Exec.checkArity_of_eq arity machine), get_bind, if_pos limit]
    rfl
  let inside : Stack Value := .frame .here machine.environment machine.loopDepth next stack
  have fails := follows_request 1 (.call closing (.function ref) arguments) inside machine
  rw [refused] at fails
  obtain ⟨after, comes, same⟩ := comes_unwound (.at closing .stackOverflow) inside machine
  exact ⟨after, .step (.enter .here _ next stack machine) (Comes.trans fails comes), same⟩

end Configuration

end Calling

end OffsideScript
