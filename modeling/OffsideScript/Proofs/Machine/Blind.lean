import OffsideScript.Proofs.Machine.Elementary

namespace OffsideScript

/-- Replaces the way in which the environments of variables are found. -/
def Machine.relocate (machine : Machine) (locator : Locator) : Machine :=
  { machine with locator }

@[simp] theorem Machine.relocate_heap (machine : Machine) (locator : Locator) :
    (machine.relocate locator).heap = machine.heap := rfl

@[simp] theorem Machine.relocate_sink (machine : Machine) (locator : Locator) :
    (machine.relocate locator).sink = machine.sink := rfl

@[simp] theorem Machine.relocate_host (machine : Machine) (locator : Locator) :
    (machine.relocate locator).host = machine.host := rfl

@[simp] theorem Machine.relocate_library (machine : Machine) (locator : Locator) :
    (machine.relocate locator).library = machine.library := rfl

/-- Two machines find the same variables in the same functions from the same place. -/
structure Machine.SameScoping (before after : Machine) : Prop where
  environments : after.heap.environments = before.heap.environments
  functions : after.heap.functions = before.heap.functions
  environment : after.environment = before.environment
  globals : after.globals = before.globals
  locator : after.locator = before.locator
  library : after.library = before.library

theorem Machine.SameScoping.refl (machine : Machine) : machine.SameScoping machine :=
  ⟨rfl, rfl, rfl, rfl, rfl, rfl⟩

theorem Machine.SameScoping.trans {first second third : Machine}
    (left : first.SameScoping second) (right : second.SameScoping third) :
    first.SameScoping third :=
  ⟨right.environments.trans left.environments, right.functions.trans left.functions,
    right.environment.trans left.environment, right.globals.trans left.globals,
    right.locator.trans left.locator, right.library.trans left.library⟩

namespace Builtin

/-- A calm action makes no environments and no functions. -/
def Calm {α : Type} (action : EStateM BuiltinError Host α) : Prop :=
  ∀ host : Host,
    (finalState (action host)).heap.environments = host.heap.environments ∧
      (finalState (action host)).heap.functions = host.heap.functions

/-- A builtin that makes no environments and no functions, whatever its arguments. -/
def Tame (builtin : Builtin) : Prop :=
  ∀ arguments, Calm (builtin.action arguments)

/-- Calm actions are calm one after another. -/
theorem Calm.bind {α β : Type} {action : EStateM BuiltinError Host α}
    {next : α → EStateM BuiltinError Host β} (first : Calm action)
    (second : ∀ value, Calm (next value)) : Calm (action >>= next) := by
  intro host
  have before := first host
  cases ran : action host with
  | ok value middle =>
      rw [ran] at before
      rw [bind_of_ok ran]
      have after := second value middle
      exact ⟨after.1.trans before.1, after.2.trans before.2⟩
  | error failure middle =>
      rw [ran] at before
      rw [bind_of_error ran]
      exact before

theorem Calm.pure {α : Type} (value : α) : Calm (pure value) := fun _ => ⟨rfl, rfl⟩

/-- An error is calm. -/
theorem Calm.throw {α : Type} (error : BuiltinError) :
    Calm (throw error : EStateM BuiltinError Host α) := fun _ => ⟨rfl, rfl⟩

/-- Looking at the host is calm. -/
theorem Calm.get {α : Type} {next : Host → EStateM BuiltinError Host α}
    (second : ∀ host, Calm (next host)) : Calm (do next (← get)) :=
  fun host => second host host

/-- A test for a text is calm. -/
theorem expectText_calm (builtin argument : String) (value : Value) :
    Calm (expectText builtin argument value) := by
  cases value with
  | text value => exact .pure value
  | _ => exact .throw _

/-- A change of a file is calm. -/
theorem changeFile_calm (builtin : String)
    (change : FileSystem → String → ByteArray → Except FileError FileSystem)
    (path content : Value) : Calm (changeFile builtin change path content) := by
  refine (expectText_calm _ _ _).bind fun path => (expectText_calm _ _ _).bind fun content => ?_
  intro host
  rw [get_bind]
  cases change host.files path content.toUTF8 <;> exact ⟨rfl, rfl⟩

/-- No builtin that a machine starts with makes an environment or a function. -/
theorem standard_tame : ∀ builtin ∈ standard, builtin.Tame := by
  intro builtin member arguments
  simp only [standard, List.mem_cons, List.not_mem_nil, or_false] at member
  rcases member with rfl | rfl | rfl | rfl | rfl | rfl
  · dsimp only [len]
    split
    · exact .pure _
    · exact .get fun _ => .pure _
    · exact .throw _
  · exact Calm.pure _
  · exact fun _ => ⟨rfl, rfl⟩
  · refine (expectText_calm _ _ _).bind fun path => .get fun host => ?_
    split
    · exact .pure _
    · exact .pure _
    · exact .throw _
  · exact changeFile_calm _ _ _ _
  · exact changeFile_calm _ _ _ _

end Builtin

/-- A machine whose builtins are all tame. -/
def Machine.Tame (machine : Machine) : Prop :=
  ∀ (slot : Nat) (builtin : Builtin), machine.library[slot]? = some builtin → builtin.Tame

/-- A machine stays tame while its builtins stay the same. -/
theorem Machine.SameScoping.tame {before after : Machine} (same : before.SameScoping after)
    (tame : before.Tame) : after.Tame := by
  intro slot builtin found
  rw [same.library] at found
  exact tame slot builtin found

namespace Exec

variable {α β : Type}

/-- The result with the machine relocated. -/
def relocated (locator : Locator) :
    EStateM.Result Halt Machine α → EStateM.Result Halt Machine α
  | .ok value machine => .ok value (machine.relocate locator)
  | .error halt machine => .error halt (machine.relocate locator)

/-- An action is blind if it does not use the locator and keeps what variables mean. -/
structure Blind (action : Exec α) : Prop where
  relocate : ∀ (machine : Machine) (locator : Locator),
    action (machine.relocate locator) = relocated locator (action machine)
  steady : ∀ machine : Machine, machine.Tame → machine.SameScoping (finalState (action machine))

theorem Blind.pure (value : α) : Blind (pure value) :=
  ⟨fun _ _ => rfl, fun machine _ => .refl machine⟩

/-- An error does not use the locator. -/
theorem Blind.fail (token : Token) (reason : RuntimeError.Reason) :
    Blind (fail token reason : Exec α) :=
  ⟨fun _ _ => rfl, fun machine _ => .refl machine⟩

/-- Blind actions are blind one after another. -/
theorem Blind.bind {action : Exec α} {next : α → Exec β} (first : Blind action)
    (second : ∀ value, Blind (next value)) : Blind (action >>= next) := by
  constructor
  · intro machine locator
    change EStateM.bind action next (machine.relocate locator) =
      relocated locator (EStateM.bind action next machine)
    simp only [EStateM.bind, first.relocate machine locator]
    cases action machine with
    | ok value after => exact (second value).relocate after locator
    | error halt after => rfl
  · intro machine tame
    have same := first.steady machine tame
    change machine.SameScoping (finalState (EStateM.bind action next machine))
    simp only [EStateM.bind]
    cases ran : action machine with
    | ok value after =>
        rw [ran] at same
        exact same.trans ((second value).steady after (same.tame tame))
    | error halt after =>
        rw [ran] at same
        exact same

/-- The test for the number of arguments is blind. -/
theorem checkArity_blind (closing : Token) (expected found : Nat) :
    Blind (checkArity closing expected found) := by
  unfold checkArity
  split
  · exact .pure _
  · exact .fail _ _

/-- Printing is blind. -/
theorem print_blind (keyword : Token) (value : Value) : Blind (print keyword value) := by
  constructor
  · intro machine locator
    simp only [print, Machine.relocate_heap, Machine.relocate_sink]
    split <;> rfl
  · intro machine _
    simp only [print]
    split <;> exact ⟨rfl, rfl, rfl, rfl, rfl, rfl⟩

/-- A builtin does not use the locator. -/
theorem perform_relocate (closing : Token) (builtin : Builtin) (arguments : List Value)
    (machine : Machine) (locator : Locator) :
    perform closing builtin arguments (machine.relocate locator) =
      relocated locator (perform closing builtin arguments machine) := by
  unfold perform
  rw [Machine.relocate_host]
  cases builtin.action arguments machine.host <;> rfl

/-- A tame builtin keeps what variables mean. -/
theorem perform_steady (closing : Token) (builtin : Builtin) (arguments : List Value)
    (machine : Machine) (tame : builtin.Tame) :
    machine.SameScoping (finalState (perform closing builtin arguments machine)) := by
  have kept := tame arguments machine.host
  unfold perform
  cases ran : builtin.action arguments machine.host <;>
    (rw [ran] at kept; exact ⟨kept.1, kept.2, rfl, rfl, rfl, rfl⟩)

/-- The call of a builtin is blind. -/
theorem callBuiltin_blind (closing : Token) (ref : BuiltinRef) (arguments : List Value) :
    Blind (callBuiltin closing ref arguments) := by
  refine (checkArity_blind closing ref.arity arguments.length).bind fun _ => ⟨?_, ?_⟩
  · intro machine locator
    rw [get_bind, get_bind, Machine.relocate_library]
    cases machine.library[ref.slot]? with
    | none => rfl
    | some builtin => exact perform_relocate closing builtin arguments machine locator
  · intro machine tame
    rw [get_bind]
    cases found : machine.library[ref.slot]? with
    | none => exact .refl machine
    | some builtin =>
        exact perform_steady closing builtin arguments machine (tame ref.slot builtin found)

/-- Elementary actions are blind. -/
theorem Elementary.blind {action : Token → Exec α} (elementary : Elementary action) (token : Token) :
    Blind (action token) := by
  induction elementary with
  | fail reason placed => exact .fail token reason
  | bind _ _ first second => exact first.bind second
  | heap step superficial =>
      refine ⟨fun _ _ => rfl, fun machine _ => ?_⟩
      exact ⟨superficial.environments machine.host.heap, superficial.functions machine.host.heap,
        rfl, rfl, rfl, rfl⟩
  | print value => exact print_blind token value
  | callBuiltin ref arguments => exact callBuiltin_blind token ref arguments

end Exec

end OffsideScript
