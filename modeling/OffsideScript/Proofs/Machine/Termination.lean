import OffsideScript.Proofs.Machine.Calls
import OffsideScript.Proofs.Scope.Environment

namespace OffsideScript

variable {α β : Type}

mutual

/-- A statement without loops, also inside its branches and functions. -/
def Statement.isLoopFree : Statement → Bool
  | .branch branches => isLoopFreeBranches branches
  | .loop _ _ => false
  | .function _ _ body => isLoopFreeAll body
  | _ => true

def Statement.isLoopFreeAll : List Statement → Bool
  | [] => true
  | statement :: rest => statement.isLoopFree && isLoopFreeAll rest

def Statement.isLoopFreeBranches : List (Expression × List Statement) → Bool
  | [] => true
  | (_, body) :: rest => isLoopFreeAll body && isLoopFreeBranches rest

end

/-- A body without loops that is not larger than a limit. -/
def Statement.Fits (limit : Nat) (body : List Statement) : Prop :=
  isLoopFreeAll body = true ∧ sizeOf body ≤ limit

/-- An expression has a size. -/
theorem Expression.sizeOf_pos (expression : Expression) : 0 < sizeOf expression := by
  cases expression <;> simp +arith

namespace Request

/-- A request without loops. -/
def isLoopFree : {α : Type} → Request α → Bool
  | _, .execute statement => statement.isLoopFree
  | _, .executeAll statements => Statement.isLoopFreeAll statements
  | _, .executeBody body => Statement.isLoopFreeAll body
  | _, .executeBranches branches => Statement.isLoopFreeBranches branches
  | _, .repeatBody _ _ => false
  | _, _ => true

/-- The size of the code that is left to run, apart from the bodies of functions that it calls. -/
noncomputable def weight : {α : Type} → Request α → Nat
  | _, .evaluate expression => sizeOf expression
  | _, .logical _ _ right => sizeOf right + 1
  | _, .evaluateAll expressions => sizeOf expressions
  | _, .evaluateEntries _ entries => sizeOf entries
  | _, .call _ _ _ => 0
  | _, .execute statement => sizeOf statement
  | _, .executeAll statements => sizeOf statements
  | _, .executeBody body => sizeOf body + 1
  | _, .executeBranches branches => sizeOf branches
  | _, .repeatBody _ _ => 0

/-- What a request leads to is smaller than it, or the body of a function inside one more call. -/
def Descends (limit calls : Nat) (request : Request α) (β : Type) (setting : Setting)
    (inner : Request β) : Prop :=
  inner.isLoopFree = true ∧
    match setting with
    | .call _ => calls < Machine.maxCallDepth ∧ inner.weight ≤ limit
    | .loop => False
    | _ => inner.weight < request.weight

/-- The code of a request without loops descends. -/
theorem code_descends {limit : Nat} (calls : Nat) (request : Request α)
    (free : request.isLoopFree = true) (small : request.weight ≤ limit) :
    request.code.Obeys (Statement.Fits limit) calls (request.Descends limit calls) := by
  cases request with
  | evaluate expression =>
      cases expression with
      | logical operator token left right =>
          have pos := left.sizeOf_pos
          simp +arith [code, Descends, isLoopFree, weight]
          omega
      | _ => simp +arith [code, Descends, Primitive.Makes, isLoopFree, weight]
  | logical operator left right =>
      cases operator <;> cases left <;> simp [code, Descends, isLoopFree, weight]
  | evaluateAll expressions =>
      cases expressions <;> simp +arith [code, Descends, isLoopFree, weight]
  | evaluateEntries map entries =>
      cases entries with
      | nil => simp [code]
      | cons entry rest =>
          rcases entry with ⟨key, value⟩
          simp +arith [code, Descends, isLoopFree, weight]
  | call closing callee arguments =>
      exact call_obeys closing callee arguments fun room _ _ fits => ⟨fits.1, room, fits.2⟩
  | execute statement =>
      cases statement with
      | declare name initial | ret keyword initial =>
          cases initial <;> simp +arith [code, Descends, Primitive.Makes, isLoopFree, weight]
      | branch branches =>
          simp only [isLoopFree, Statement.isLoopFree] at free
          simp +arith [code, Descends, isLoopFree, weight, free]
      | loop condition body => cases free
      | function name parameters body =>
          simp only [isLoopFree, Statement.isLoopFree] at free
          simp only [weight, Statement.function.sizeOf_spec] at small
          have fits : Statement.Fits limit body := ⟨free, by omega⟩
          simp [code, Primitive.Makes, fits]
      | _ => simp +arith [code, Descends, Primitive.Makes, isLoopFree, weight]
  | executeAll statements =>
      cases statements with
      | nil => simp [code]
      | cons statement rest =>
          simp only [isLoopFree, Statement.isLoopFreeAll, Bool.and_eq_true] at free
          rw [code, Code.obeys_request_bind]
          refine ⟨⟨free.1, by simp +arith [weight]⟩, fun flow => ?_⟩
          cases flow <;> simp +arith [Descends, isLoopFree, weight, free]
  | executeBody body =>
      simp only [isLoopFree] at free
      simp [code, Descends, Primitive.Makes, isLoopFree, weight, free]
  | executeBranches branches =>
      cases branches with
      | nil => simp [code]
      | cons branch rest =>
          rcases branch with ⟨condition, body⟩
          simp only [isLoopFree, Statement.isLoopFreeBranches, Bool.and_eq_true] at free
          simp +arith [code, Descends, isLoopFree, weight, free]
  | repeatBody condition body => cases free

end Request

/-- An action does not run out of fuel, and its machine still has good functions and is inside as many calls
if it succeeds. -/
def Exec.Finishes (good : List Statement → Prop) (calls : Nat) :
    EStateM.Result Halt Machine α → Prop
  | .ok _ after => after.HasBodies good ∧ after.callDepth = calls
  | .error (.error _) _ => True
  | .error .outOfFuel _ => False

/-- What finishes inside a setting finishes outside of it. -/
theorem Setting.around_finishes {good : List Statement → Prop} {calls : Nat} {action : Exec α}
    {machine : Machine} (setting : Setting) (has : machine.HasBodies good)
    (depth : machine.callDepth = calls)
    (inside : ∀ entered : Machine, entered.HasBodies good →
      entered.callDepth = calls + setting.calls →
        Exec.Finishes good (calls + setting.calls) (action entered)) :
    Exec.Finishes good calls (setting.around action machine) := by
  have entered : (setting.enter machine).HasBodies good := by
    cases setting <;> exact has.of_same rfl rfl
  have deeper : (setting.enter machine).callDepth = calls + setting.calls := by
    cases setting <;> simp [enter, Setting.calls, depth]
  have finishes := inside (setting.enter machine) entered deeper
  rw [Setting.around, Exec.around]
  cases ran : action (setting.enter machine) with
  | ok value after =>
      rw [ran] at finishes
      constructor
      · cases setting <;> exact finishes.1.of_same rfl rfl
      · have back := finishes.2
        cases setting <;> simp_all [leave, Setting.calls]
  | error halt after =>
      rw [ran] at finishes
      cases halt with
      | error error => trivial
      | outOfFuel => exact finishes

/-- Code finishes if what it asks for does. -/
theorem Code.run_finishes {good : List Statement → Prop} {calls fuel : Nat}
    {allowed : (β : Type) → Setting → Request β → Prop} {code : Code α} {machine : Machine}
    (obeys : code.Obeys good calls allowed) (has : machine.HasBodies good)
    (depth : machine.callDepth = calls)
    (requests : ∀ {β : Type} (setting : Setting) (request : Request β), allowed β setting request →
      ∀ entered : Machine, entered.HasBodies good → entered.callDepth = calls + setting.calls →
        Exec.Finishes good (calls + setting.calls) (request.run fuel entered)) :
    Exec.Finishes good calls (code.run fuel machine) := by
  induction code generalizing machine with
  | done value => exact ⟨has, depth⟩
  | act primitive next ih =>
      have kept := primitive.hasBodies obeys.1 has
      have same := (primitive.sameControl machine).callDepth
      rw [run]
      cases ran : primitive.perform machine with
      | ok value middle =>
          have yields := primitive.yields has.bodies ran
          rw [ran] at kept same
          rw [bind_of_ok ran]
          exact ih value (obeys.2 value (depth ▸ yields)) kept (same.trans depth)
      | error halt middle =>
          rw [bind_of_error ran]
          cases halt with
          | error error => trivial
          | outOfFuel => exact primitive.prompt machine middle ran
  | ask setting request next ih =>
      have finishes := setting.around_finishes has depth (requests setting request obeys.1)
      rw [run]
      cases ran : setting.around (request.run fuel) machine with
      | ok value middle =>
          rw [ran] at finishes
          rw [bind_of_ok ran]
          exact ih value (obeys.2 value) finishes.1 finishes.2
      | error halt middle =>
          rw [ran] at finishes
          rw [bind_of_error ran]
          cases halt with
          | error error => trivial
          | outOfFuel => exact finishes

/-- A request without loops finishes if there is fuel for its own code and, for each call that may still
begin, for the largest body. -/
theorem Request.run_finishes {limit calls fuel : Nat} {request : Request α} {machine : Machine}
    (free : request.isLoopFree = true) (small : request.weight ≤ limit)
    (has : machine.HasBodies (Statement.Fits limit)) (depth : machine.callDepth = calls)
    (enough : request.weight + (Machine.maxCallDepth - calls) * (limit + 1) < fuel) :
    Exec.Finishes (Statement.Fits limit) calls (request.run fuel machine) := by
  induction fuel generalizing α calls machine with
  | zero => omega
  | succ fuel ih =>
      rw [run_succ]
      refine Code.run_finishes (request.code_descends calls free small) has depth ?_
      intro β setting inner descends entered enteredHas enteredDepth
      cases setting with
      | call environment =>
          obtain ⟨innerFree, room, innerSmall⟩ := descends
          refine ih innerFree innerSmall enteredHas enteredDepth ?_
          have rest : Machine.maxCallDepth - calls =
              Machine.maxCallDepth - (calls + (Setting.call environment).calls) + 1 := by
            simp only [Setting.calls]
            omega
          rw [rest, Nat.add_mul] at enough
          omega
      | loop => exact descends.2.elim
      | here | within environment =>
          have lighter := descends.2
          refine ih descends.1 (by omega) enteredHas enteredDepth ?_
          simp only [Setting.calls, Nat.add_zero]
          omega

/-- A program without loops asks for statements that are no larger than it. -/
theorem Program.code_descends {limit : Nat} (calls : Nat) {program : Program}
    (free : Statement.isLoopFreeAll program = true) (small : sizeOf program ≤ limit) :
    program.code.Obeys (Statement.Fits limit) calls fun _ setting request =>
      setting = .here ∧ request.isLoopFree = true ∧ request.weight ≤ limit := by
  induction program with
  | nil => exact Code.obeys_pure ()
  | cons statement rest ih =>
      simp only [Statement.isLoopFreeAll, Bool.and_eq_true] at free
      simp only [List.cons.sizeOf_spec] at small
      refine ⟨⟨rfl, free.1, ?_⟩, fun _ => ih free.2 (by omega)⟩
      simp only [Request.weight]
      omega

/-- A program without loops ends on every machine whose functions have no loops. -/
theorem Machine.ends_of_loopFree {limit : Nat} {machine : Machine} {program : Program}
    (locator : Locator) (free : Statement.isLoopFreeAll program = true)
    (small : sizeOf program ≤ limit) (has : machine.HasBodies (Statement.Fits limit)) :
    ∃ failure after, machine.Ends program locator failure after := by
  let fuel := limit + maxCallDepth * (limit + 1) + 1
  have finishes : Exec.Finishes (Statement.Fits limit) 0
      (program.code.run fuel (machine.ready locator)) := by
    refine Code.run_finishes (program.code_descends 0 free small) (has.of_same rfl rfl) rfl ?_
    rintro β _ request ⟨rfl, requestFree, requestSmall⟩ entered enteredHas enteredDepth
    refine Request.run_finishes requestFree requestSmall enteredHas enteredDepth ?_
    simp only [Setting.calls, Nat.add_zero, Nat.sub_zero, fuel]
    omega
  rw [← Program.run_code] at finishes
  obtain ⟨failure, after, _, comes⟩ | ⟨after, _, _, stopped, _⟩ :=
    interpret_follows fuel program locator machine
  · exact ⟨failure, after, ends_iff.mpr comes⟩
  · rw [interpret] at stopped
    cases ran : Exec.executeProgram fuel program (machine.ready locator) with
    | ok value last =>
        rw [ran] at stopped
        cases stopped
    | error halt last =>
        rw [ran] at stopped finishes
        cases stopped
        exact finishes.elim

namespace Configuration

/-- The call that a run makes next, with the token that its errors point to. -/
def pendingCall? : Configuration → Option (Token × Value × List Value)
  | ⟨.running (.ask .here (.call closing callee arguments) _), _, _⟩ =>
      some (closing, callee, arguments)
  | _ => none

/-- A call inside as many calls as there may be ends the run before it changes anything. -/
theorem Counts.overflow_pending {point : Configuration} {closing : Token} {ref : FunctionRef}
    {arguments : List Value} {closure : Closure} (counts : point.Counts)
    (pending : point.pendingCall? = some (closing, .function ref, arguments))
    (found : point.machine.heap.closure? ref = some closure)
    (arity : closure.parameters.length = arguments.length)
    (full : point.stack.calls = Machine.maxCallDepth) :
    ∃ after, point.Comes (.ended (some (.at closing .stackOverflow)) after) ∧
      after.heap = point.machine.heap := by
  unfold pendingCall? at pending
  split at pending
  · cases pending
    obtain ⟨after, comes, host, _⟩ := counts.overflow found arity full
    exact ⟨after, comes, congrArg Host.heap host⟩
  · cases pending

end Configuration

namespace Machine

/-- A machine starts without functions. -/
theorem start_hasBodies (good : List Statement → Prop) (files : FileSystem) (clock : Clock)
    (sink : Sink) : (start files clock sink).HasBodies good := by
  constructor
  · intro slot builtin found
    exact Builtin.standard_tame builtin (List.mem_toArray.mp (Array.mem_of_getElem? found))
  · intro closure member
    exact absurd member (Array.not_mem_empty closure)

/-- A program without loops always ends, in success or in an error, however its functions call each other.
At every point of any run, with loops or without, the machine counts the calls in progress, of which there are
never more than the limit. A call beyond the limit ends the run in an error, with the heap that the function
and its arguments were evaluated to. -/
theorem loop_free_ends (files : FileSystem) (clock : Clock) (sink : Sink) (program : Program)
    (locator : Locator) :
    (Statement.isLoopFreeAll program = true →
      ∃ failure after, (start files clock sink).Ends program locator failure after) ∧
    ∀ point, ((start files clock sink).launch program locator).Comes point →
      point.machine.callDepth = point.stack.calls ∧ point.stack.calls ≤ maxCallDepth ∧
      ∀ closing ref arguments closure,
        point.pendingCall? = some (closing, .function ref, arguments) →
        point.machine.heap.closure? ref = some closure →
        closure.parameters.length = arguments.length → point.stack.calls = maxCallDepth →
        ∃ after, (start files clock sink).Ends program locator
            (some (.at closing .stackOverflow)) after ∧
          after.heap = point.machine.heap := by
  constructor
  · intro free
    exact ends_of_loopFree locator free (Nat.le_refl _) (start_hasBodies _ files clock sink)
  · intro point comes
    have counts := comes.counts (launch_counts _ program locator)
    refine ⟨counts.depth, counts.stack.calls_le, ?_⟩
    intro closing ref arguments closure pending found arity full
    obtain ⟨after, last, heap⟩ := counts.overflow_pending pending found arity full
    exact ⟨after, ends_iff.mpr (comes.trans last), heap⟩

end Machine

namespace Configuration

/-- A run is about to call a global function that does nothing but call itself. -/
structure Recurs (name : Token) (ref : FunctionRef) (point : Configuration) : Prop where
  pending : point.pendingCall? = some (name, .function ref, [])
  found : point.machine.heap.closure? ref = some
    ⟨name, [], [.evaluate (.call (.variable 0 name) name [])], point.machine.globals⟩
  bound : point.machine.heap.get? point.machine.globals name.lexeme = some (.function ref)
  located : point.machine.locator = Distances.empty.locator

variable {name : Token} {ref : FunctionRef}

/-- A statement that calls such a function comes to the call. -/
theorem comes_call {machine : Machine} (stack : Stack Flow)
    (bound : machine.heap.get? machine.globals name.lexeme = some (.function ref))
    (located : machine.locator = Distances.empty.locator) :
    ∃ rest : Stack Value,
      Comes ⟨.running (Request.code (.execute (.evaluate (.call (.variable 0 name) name [])))),
          stack, machine⟩
        ⟨.running (.ask .here (.call name (.function ref) []) .done), rest, machine⟩ ∧
      rest.calls = stack.calls := by
  have read : (Primitive.read 0 name).perform machine = .ok (.function ref) machine := by
    have place : Exec.locate 0 name.lexeme machine = .ok (some machine.globals) machine := by
      unfold Exec.locate
      rw [get_bind, located]
      rfl
    rw [Primitive.perform, Exec.read, bind_of_ok place, get_bind, Option.bind_some, bound]
    rfl
  apply Exists.intro
  apply And.intro
  · apply Comes.step (.enter .here (.evaluate _) _ _ machine)
    apply Comes.step (.enter .here (.evaluate (.variable 0 name)) _ _ machine)
    apply Comes.step (.act read)
    apply Comes.step (.resume _ .here _ _ _ _ machine)
    apply Comes.step (.enter .here (.evaluateAll []) _ _ machine)
    exact .single (.resume _ .here _ _ _ _ machine)
  · rfl

/-- A function that calls itself comes to the same call inside one more call. -/
theorem Recurs.deeper {point : Configuration} (recurs : point.Recurs name ref)
    (room : point.machine.callDepth < Machine.maxCallDepth) :
    ∃ later, point.Comes later ∧ later.Recurs name ref ∧
      later.stack.calls = point.stack.calls + 1 := by
  obtain ⟨pending, found, bound, located⟩ := recurs
  unfold pendingCall? at pending
  split at pending
  · cases pending
    rename_i next stack machine
    dsimp only at found bound located room
    let made := machine.heap.newEnvironment ⟨[], some machine.globals⟩
    let entered := (Setting.call made.1).enter { machine with host.heap := made.2 }
    have kept : entered.heap.get? entered.globals name.lexeme = some (.function ref) := by
      have inside : machine.globals.index < machine.heap.environments.size :=
        Heap.inside_of_binds (by rw [Heap.binds, bound]; rfl)
      change made.2.get? machine.globals name.lexeme = some (.function ref)
      rw [Heap.get?_newEnvironment, if_neg, bound]
      intro fresh
      rw [fresh] at inside
      exact Nat.lt_irrefl _ inside
    obtain ⟨last, begins⟩ := comes_body name [] next stack found rfl room
    obtain ⟨inside, executes, more⟩ : ∃ inside : Stack Flow,
        Comes ⟨.running (.ask .here (.call name (.function ref) []) next), stack, machine⟩
          ⟨.running (Request.code (.execute (.evaluate (.call (.variable 0 name) name [])))),
            inside, entered⟩ ∧
        inside.calls = stack.calls + 1 :=
      ⟨_, begins.trans (.single (.enter .here _ _ _ _)), rfl⟩
    obtain ⟨rest, comes, same⟩ := comes_call inside kept located
    exact ⟨⟨.running (.ask .here (.call name (.function ref) []) .done), rest, entered⟩,
      executes.trans comes, ⟨rfl, found, kept, located⟩, same.trans more⟩
  · cases pending

/-- A function that calls itself comes to the limit of calls. -/
theorem Recurs.comes_limit {point : Configuration} (recurs : point.Recurs name ref)
    (counts : point.Counts) :
    ∃ later, point.Comes later ∧ later.Recurs name ref ∧
      later.stack.calls = Machine.maxCallDepth := by
  have depth := counts.depth
  have within := counts.stack.calls_le
  induction rest : Machine.maxCallDepth - point.stack.calls generalizing point with
  | zero => exact ⟨point, .refl point, recurs, by omega⟩
  | succ rest ih =>
      obtain ⟨middle, comes, again, deeper⟩ := recurs.deeper (by omega)
      have counted := comes.counts counts
      obtain ⟨later, further, last, full⟩ :=
        ih again counted counted.depth counted.stack.calls_le (by omega)
      exact ⟨later, comes.trans further, last, full⟩

end Configuration

/-- A program without loops whose only function calls itself ends when there are too many calls. -/
theorem Machine.loop_free_ends_recursion :
    let machine := start ⟨[], [], true⟩ (.still 0) (.empty none)
    let locator := Distances.empty.locator
    let name : Token := ⟨.identifier, "f", 1, none⟩
    let call : Statement := .evaluate (.call (.variable 0 name) name [])
    let program : Program := [.function name [] [call], call]
    Statement.isLoopFreeAll program = true ∧
    (∃ failure after, machine.Ends program locator failure after) ∧
    (∃ point, (machine.launch program locator).Comes point ∧
      point.machine.callDepth = maxCallDepth) ∧
    ∃ after, machine.Ends program locator (some (.at name .stackOverflow)) after := by
  intro machine locator name call program
  obtain ⟨ends, points⟩ := loop_free_ends ⟨[], [], true⟩ (.still 0) (.empty none) program locator
  let middle := finalState (Exec.executeProgram 2 [.function name [] [call]] (machine.ready locator))
  have early : (machine.launch program locator).Comes ⟨.running (Program.code [call]), .nil, middle⟩ :=
    Configuration.comes_rest (rfl : Exec.executeProgram 2 [.function name [] [call]]
      (machine.ready locator) = .ok () middle)
  have executes := early.trans (.single (.enter .here _ _ _ _))
  have bound : middle.heap.get? middle.globals name.lexeme = some (.function ⟨0⟩) := rfl
  obtain ⟨rest, comes, _⟩ := Configuration.comes_call
    (.frame .here middle.environment middle.loopDepth (fun _ => Program.code []) .nil) bound rfl
  have recurs : Configuration.Recurs name ⟨0⟩
      ⟨.running (.ask .here (.call name (.function ⟨0⟩) []) .done), rest, middle⟩ :=
    ⟨rfl, rfl, bound, rfl⟩
  have begins := executes.trans comes
  obtain ⟨last, further, limit, full⟩ :=
    recurs.comes_limit (begins.counts (machine.launch_counts program locator))
  obtain ⟨depth, _, overflows⟩ := points last (begins.trans further)
  obtain ⟨after, overflow, _⟩ := overflows name ⟨0⟩ [] _ limit.pending limit.found rfl full
  exact ⟨by decide, ends (by decide), ⟨last, begins.trans further, depth.trans full⟩, after, overflow⟩

end OffsideScript
