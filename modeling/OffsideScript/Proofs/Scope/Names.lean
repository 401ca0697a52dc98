import OffsideScript.Proofs.Machine.Regime

namespace OffsideScript

namespace Heap

/-- All environments of one heap are in another and bind the same names there. -/
structure KeepsNames (before after : Heap) : Prop where
  size : before.environments.size ≤ after.environments.size
  binds : ∀ ref name, ref.index < before.environments.size →
    after.binds ref name = before.binds ref name

/-- One environment binds one more name, which it may have bound before. All others bind what they did. -/
structure AddsName (before : Heap) (ref : EnvironmentRef) (name : String) (after : Heap) : Prop where
  size : before.environments.size ≤ after.environments.size
  binds : ∀ other sought, other.index < before.environments.size →
    (after.binds other sought = true ↔
      before.binds other sought = true ∨ other = ref ∧ sought = name)

namespace KeepsNames

variable {first second third heap middle : Heap}

theorem refl (heap : Heap) : heap.KeepsNames heap :=
  ⟨Nat.le_refl _, fun _ _ _ => rfl⟩

theorem trans (left : first.KeepsNames second) (right : second.KeepsNames third) :
    first.KeepsNames third := by
  refine ⟨Nat.le_trans left.size right.size, fun ref name inside => ?_⟩
  rw [right.binds ref name (Nat.lt_of_lt_of_le inside left.size), left.binds ref name inside]

/-- A heap with the same environments keeps all names. -/
theorem of_environments_eq (same : second.environments = first.environments) :
    first.KeepsNames second := by
  refine ⟨Nat.le_of_eq (congrArg Array.size same.symm), fun ref name _ => ?_⟩
  simp only [Heap.binds, get?, same]

/-- A name that is bound already may get a new value. -/
theorem assign {ref : EnvironmentRef} {name : String} (value : Value)
    (bound : heap.binds ref name = true) : heap.KeepsNames (heap.define ref name value) := by
  refine ⟨Nat.le_of_eq (heap.define_size ref name value).symm, fun other sought _ => ?_⟩
  rw [Bool.eq_iff_iff, heap.binds_define]
  constructor
  · rintro (⟨rfl, rfl, _⟩ | before)
    · exact bound
    · exact before
  · exact .inr

/-- A new name in an environment that was not there before is no change. -/
theorem define_beyond {ref : EnvironmentRef} (name : String) (value : Value)
    (beyond : heap.environments.size ≤ ref.index) (kept : heap.KeepsNames middle) :
    heap.KeepsNames (middle.define ref name value) := by
  refine ⟨(middle.define_size ref name value).symm ▸ kept.size,
    fun other sought inside => ?_⟩
  rw [← kept.binds other sought inside, Bool.eq_iff_iff, middle.binds_define]
  constructor
  · rintro (⟨rfl, _⟩ | before)
    · omega
    · exact before
  · exact .inr

/-- A new environment takes no names from the others. -/
theorem newEnvironment (heap : Heap) (environment : Environment) :
    heap.KeepsNames (heap.newEnvironment environment).2 := by
  refine ⟨by simp [Heap.newEnvironment], fun ref name inside => ?_⟩
  have old : ref ≠ (heap.newEnvironment environment).1 := by
    rintro rfl
    exact Nat.lt_irrefl _ inside
  rw [Heap.binds, heap.get?_newEnvironment, if_neg old, Heap.binds]

/-- What defines a name after keeping all names adds this name. -/
theorem define (kept : heap.KeepsNames middle) (ref : EnvironmentRef) (name : String)
    (value : Value) : heap.AddsName ref name (middle.define ref name value) := by
  refine ⟨(middle.define_size ref name value).symm ▸ kept.size,
    fun other sought inside => ?_⟩
  rw [middle.binds_define, kept.binds other sought inside, or_comm]
  constructor
  · rintro (before | ⟨rfl, rfl, _⟩)
    · exact .inl before
    · exact .inr ⟨rfl, rfl⟩
  · rintro (before | ⟨rfl, rfl⟩)
    · exact .inl before
    · exact .inr ⟨rfl, rfl, Nat.lt_of_lt_of_le inside kept.size⟩

end KeepsNames

end Heap

/-- A builtin may change arrays, maps and variables, but it binds no names. -/
def Builtin.KeepsNames (builtin : Builtin) : Prop :=
  ∀ (arguments : List Value) (host : Host),
    host.heap.KeepsNames (finalState (builtin.action arguments host)).heap

/-- A tame builtin binds no names. -/
theorem Builtin.Tame.keepsNames {builtin : Builtin} (tame : builtin.Tame) :
    builtin.KeepsNames :=
  fun arguments host => .of_environments_eq (tame arguments host).1

/-- Names are declared only in environments that a run has made itself. -/
def Regime.names (start : Heap) (locator : Locator) (globals : EnvironmentRef)
    (library : Array Builtin) (builtins : ∀ builtin ∈ library, builtin.KeepsNames) : Regime where
  locator := locator
  globals := globals
  library := library
  heap := start.KeepsNames
  value _ := True
  place _ := True
  scope ref := start.environments.size ≤ ref.index
  place_of_scope _ _ := trivial
  plain _ _ := trivial
  read _ _ _ _ _ _ _ _ _ _ := trivial
  assign _ _ _ _ _ item kept _ _ bound _ := kept.trans (.assign item bound)
  define _ _ name item kept beyond _ := kept.define_beyond name item beyond
  element _ _ _ _ _ _ := trivial
  entry _ _ _ _ _ _ := trivial
  home _ _ _ _ _ _ := trivial
  newArray _ _ kept _ := ⟨kept.trans (.of_environments_eq rfl), trivial⟩
  newMap _ _ kept _ := ⟨kept.trans (.of_environments_eq rfl), trivial⟩
  newFunction _ _ kept _ := ⟨kept.trans (.of_environments_eq rfl), trivial⟩
  newEnvironment memory bindings parent kept _ _ :=
    ⟨kept.trans (.newEnvironment memory ⟨bindings, some parent⟩), kept.size⟩
  setElement _ _ _ _ kept _ _ := kept.trans (.of_environments_eq rfl)
  insertEntry _ _ _ _ kept _ _ _ := kept.trans (.of_environments_eq rfl)
  perform builtin member arguments host kept _ :=
    ⟨kept.trans (builtins builtin member arguments host), fun _ _ _ => trivial⟩

/-- How a declaration ends: with its name bound in the current environment, or with no name bound. -/
def Machine.Declares (machine : Machine) (name : String) : EStateM.Result Halt Machine Flow → Prop
  | .ok _ after => machine.heap.AddsName machine.environment name after.heap
  | .error _ after => machine.heap.KeepsNames after.heap

namespace Exec

/-- An action that binds no names, before its result is bound to a name. -/
theorem declares_of_keeps {machine : Machine} (name : String) (action : Exec Value)
    (names : machine.heap.KeepsNames (finalState (action machine)).heap)
    (same : (finalState (action machine)).environment = machine.environment) :
    machine.Declares name
      ((do let value ← action; define name value; return Flow.normal) machine) := by
  cases ran : action machine with
  | ok value middle =>
      rw [ran] at names same
      rw [bind_of_ok ran]
      change machine.heap.AddsName machine.environment name
        (middle.heap.define middle.environment name value)
      rw [show middle.environment = machine.environment from same]
      exact names.define machine.environment name value
  | error halt middle =>
      rw [ran] at names
      rw [bind_of_error ran]
      exact names

/-- Expressions, bodies and all statements but declarations leave every environment that was there before
with the names that it had, even if they end in an error. A declaration adds its own name to the current
environment if it succeeds, and no name if it fails. Builtins are programs of the host, and that they bind
no names is all that is asked of them. -/
theorem execute_names (fuel : Nat) (machine : Machine)
    (builtins : ∀ builtin ∈ machine.library, builtin.KeepsNames) :
    (∀ expression, machine.heap.KeepsNames (finalState (evaluate fuel expression machine)).heap) ∧
    (∀ body, machine.heap.KeepsNames (finalState (executeBody fuel body machine)).heap) ∧
    (∀ statement, statement.declared? = none →
      machine.heap.KeepsNames (finalState (execute fuel statement machine)).heap) ∧
    ∀ statement name, statement.declared? = some name →
      machine.Declares name (execute fuel statement machine) := by
  let regime := Regime.names machine.heap machine.locator machine.globals machine.library builtins
  have admits : regime.Admits machine.environment machine := ⟨.refl _, rfl, rfl, rfl, rfl⟩
  refine ⟨fun expression => ?_, fun body => ?_, fun statement undeclared => ?_, ?_⟩
  · exact (regime.keeps_evaluate fuel expression trivial machine admits).admits.heap
  · exact (regime.keeps_executeBody fuel body trivial machine admits).admits.heap
  · exact (regime.keeps_execute fuel statement trivial (absurd undeclared) machine admits).admits.heap
  · intro statement name declared
    cases fuel with
    | zero => exact Heap.KeepsNames.refl machine.heap
    | succ fuel =>
        cases statement with
        | declare token initial =>
            cases declared
            cases initial with
            | none => exact declares_of_keeps token.lexeme (pure .nihl) (.refl machine.heap) rfl
            | some initial =>
                have ends := (regime.keeps_evaluate fuel initial trivial machine admits).admits
                exact declares_of_keeps token.lexeme _ ends.heap ends.environment
        | function token parameters body =>
            cases declared
            exact declares_of_keeps token.lexeme (newFunction token parameters body)
              (.of_environments_eq rfl) rfl
        | _ => cases declared

/-- A body that shadows a global variable and declares another leaves the globals with the names that they
had, and the same declarations outside of a body do not. -/
theorem execute_names_shadowing :
    let first : Token := ⟨.identifier, "a", 1, none⟩
    let second : Token := ⟨.identifier, "b", 2, none⟩
    let start := Machine.start ⟨[], [], true⟩ (.still 0) (.empty none)
    let machine := start.mapHeap (·.define start.globals "a" .nihl)
    let body : List Statement := [.declare first none, .declare second none]
    (∀ builtin ∈ machine.library, builtin.KeepsNames) ∧
    (finalState (executeBody 5 body machine)).heap.binds machine.globals "a" = true ∧
    (finalState (executeBody 5 body machine)).heap.binds machine.globals "b" = false ∧
    (Statement.declare second none).declared? = some "b" ∧
    machine.Declares "b" (execute 5 (.declare second none) machine) ∧
    (finalState (execute 5 (.declare second none) machine)).heap.binds machine.globals "b" = true := by
  intro first second start machine body
  have library : machine.library = Builtin.standard.toArray := rfl
  have builtins : ∀ builtin ∈ machine.library, builtin.KeepsNames := by
    intro builtin member
    rw [library] at member
    exact (Builtin.standard_tame builtin (by simpa using member)).keepsNames
  have names := execute_names 5 machine builtins
  have kept := (names.2.1 body).binds machine.globals
  have inside : machine.globals.index < machine.heap.environments.size := by decide +kernel
  refine ⟨builtins, ?_, ?_, rfl, names.2.2.2 _ "b" rfl, ?_⟩
  · rw [kept "a" inside]
    decide +kernel
  · rw [kept "b" inside]
    decide +kernel
  · have added : machine.heap.AddsName machine.environment "b" _ :=
      names.2.2.2 (.declare second none) "b" rfl
    exact (added.binds machine.globals "b" inside).mpr (.inr ⟨rfl, rfl⟩)

end Exec

end OffsideScript
