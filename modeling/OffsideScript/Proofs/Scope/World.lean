/-
This file relates the environments and functions of a machine to the frames around the statements that
made them.
-/

import OffsideScript.Machine.Run
import OffsideScript.Proofs.Machine.Blind
import OffsideScript.Proofs.Scope.Environment
import OffsideScript.Proofs.Scope.Site

namespace OffsideScript

/-- No declaration is incomplete. -/
def Frames.Settled (frames : Frames) : Prop :=
  ∀ frame ∈ frames, ∀ entry ∈ frame.scope, entry.2 = true

/-- The innermost scope declares a name at some place. Every name may be declared in the global
scope. -/
def Frames.Admits (name : String) : Frames → Prop
  | [] => False
  | [_] => True
  | frame :: _ :: _ => name ∈ frame.declared

namespace Frames

/-- A scope without incomplete declarations may be put around. -/
theorem Settled.cons {frame : Frame} {outer : Frames} (settled : outer.Settled)
    (complete : ∀ entry ∈ frame.scope, entry.2 = true) : Settled (frame :: outer) :=
  List.forall_mem_cons.mpr ⟨complete, settled⟩

/-- A complete declaration leaves the frames settled. -/
theorem Settled.bind {frames : Frames} (settled : frames.Settled) (name : String) :
    (frames.bind name true).Settled := by
  cases frames with
  | nil => simp [Settled, Frames.bind]
  | cons frame outer =>
      have parts := List.forall_mem_cons.mp settled
      exact .cons parts.2 (List.forall_mem_cons.mpr ⟨rfl, parts.1⟩)

/-- The frames behind a statement are settled. -/
theorem Settled.extend {frames : Frames} (settled : frames.Settled) (statement : Statement) :
    (frames.extend statement).Settled := by
  unfold Frames.extend
  cases statement.declared? with
  | none => exact settled
  | some name => exact settled.bind name

/-- More names may be declared where one may. -/
theorem Admits.bind {frames : Frames} {name : String} (admits : frames.Admits name)
    (other : String) (complete : Bool) : (frames.bind other complete).Admits name := by
  rcases frames with _ | ⟨frame, _ | ⟨next, outer⟩⟩
  · exact admits.elim
  · trivial
  · exact admits

/-- A statement takes away no name that may be declared. -/
theorem Admits.extend {frames : Frames} {name : String} (admits : frames.Admits name)
    (statement : Statement) : (frames.extend statement).Admits name := by
  unfold Frames.extend
  cases statement.declared? with
  | none => exact admits
  | some other => exact admits.bind other true

/-- A local frame admits the names that it declares. -/
theorem Admits.of_mem {frame : Frame} {outer : Frames} {name : String}
    (member : name ∈ frame.declared) : Admits name (frame :: outer) := by
  cases outer with
  | nil => trivial
  | cons next outer => exact member

end Frames

/-- The scope of parameters has their names, all complete. -/
theorem Scopes.mem_ofParameters (parameters : List Token) (entry : String × Bool) :
    entry ∈ Scopes.ofParameters parameters ↔
      ∃ parameter ∈ parameters, entry = (parameter.lexeme, true) := by
  have general : ∀ scope : Scope,
      entry ∈ parameters.foldl (fun scope parameter => (parameter.lexeme, true) :: scope) scope ↔
        entry ∈ scope ∨ ∃ parameter ∈ parameters, entry = (parameter.lexeme, true) := by
    induction parameters with
    | nil => simp
    | cons parameter rest ih =>
        intro scope
        rw [List.foldl_cons, ih, List.mem_cons, List.exists_mem_cons_iff]
        tauto
  exact (general []).trans (or_iff_right List.not_mem_nil)

/-- Statements suit the frames in which they stand if their declarations are among those of the
innermost scope and all their nodes obey a rule. -/
structure Statement.Suits (rule : Site → Prop) (context : Context) (frames : Frames)
    (statements : List Statement) : Prop where
  settled : frames.Settled
  admitted : ∀ statement ∈ statements, ∀ name, statement.declared? = some name →
    frames.Admits name
  ruled : ∀ site ∈ sitesAll context frames statements, rule site

namespace Statement.Suits

variable {rule : Site → Prop} {context : Context} {frames : Frames} {statement : Statement}
  {rest body : List Statement}

/-- Statements that obey a rule start with one that does. -/
theorem head (suits : Suits rule context frames (statement :: rest)) :
    Suits rule context frames [statement] := by
  refine ⟨suits.settled, ?_, ?_⟩
  · intro other member
    rw [List.mem_singleton] at member
    exact suits.admitted other (by rw [member]; exact List.mem_cons_self)
  · intro site member
    rw [sitesAll, sitesAll, List.append_nil] at member
    exact suits.ruled site (List.mem_append_left _ member)

/-- After the first one the others obey the rule. -/
theorem tail (suits : Suits rule context frames (statement :: rest)) :
    Suits rule context (frames.extend statement) rest :=
  ⟨suits.settled.extend statement,
    fun other member name declared =>
      (suits.admitted other (List.mem_cons_of_mem _ member) name declared).extend statement,
    fun site member => suits.ruled site (List.mem_append_right _ member)⟩

/-- All nodes of a statement obey the rule. -/
theorem sites (suits : Suits rule context frames [statement]) :
    ∀ site ∈ statement.sites context frames, rule site :=
  fun site member => suits.ruled site (List.mem_append_left _ member)

/-- A statement itself obeys the rule. -/
theorem here (suits : Suits rule context frames [statement]) :
    rule ⟨.statement context statement, frames⟩ := by
  refine suits.sites _ ?_
  rw [Statement.sites.eq_def]
  exact List.mem_cons_self

/-- A block suits a frame of its own. -/
theorem ofBody (settled : frames.Settled)
    (ruled : ∀ site ∈ sitesAll context (Frame.ofBody body :: frames) body, rule site) :
    Suits rule context (Frame.ofBody body :: frames) body := by
  refine ⟨settled.cons (fun _ member => nomatch member), ?_, ruled⟩
  intro statement member name declared
  exact .of_mem (List.mem_filterMap.mpr ⟨statement, member, declared⟩)

/-- The body of a function suits the frame of its parameters, inside the scope that knows the
function. -/
theorem functionBody {name : Token} {parameters : List Token}
    (suits : Suits rule context frames [.function name parameters body]) :
    Suits rule ⟨true, false⟩ (Frame.ofFunction parameters body :: frames.bind name.lexeme true)
      body := by
  refine ⟨(suits.settled.bind name.lexeme).cons ?_, ?_, ?_⟩
  · intro entry member
    obtain ⟨_, _, rfl⟩ := (Scopes.mem_ofParameters parameters entry).mp member
    rfl
  · intro statement member name declared
    exact .of_mem (List.mem_append_right _ (List.mem_filterMap.mpr ⟨statement, member, declared⟩))
  · exact fun site member => suits.sites site (List.mem_cons_of_mem _ member)

/-- A statement declares only what its frames admit. -/
theorem admits (suits : Suits rule context frames [statement]) {name : String}
    (declared : statement.declared? = some name) : frames.Admits name :=
  suits.admitted statement (List.mem_singleton.mpr rfl) name declared

end Statement.Suits

/-- What the text of a program says about a heap: the names that the scope of each environment
declares, and the frames of the body of each function. -/
structure World where
  declared : List (List String)
  homes : List Frames

/-- A later world knows more environments and more functions. -/
structure World.Extends (world later : World) : Prop where
  declared : world.declared <+: later.declared
  homes : world.homes <+: later.homes

theorem World.Extends.refl (world : World) : world.Extends world :=
  ⟨List.prefix_rfl, List.prefix_rfl⟩

theorem World.Extends.trans {first second third : World} (left : first.Extends second)
    (right : second.Extends third) : first.Extends third :=
  ⟨left.declared.trans right.declared, left.homes.trans right.homes⟩

/-- What is found in the first items is found in all. -/
theorem prefix_getElem? {α : Type} {first second : List α} (start : first <+: second)
    {index : Nat} {value : α} (found : first[index]? = some value) :
    second[index]? = some value := by
  obtain ⟨rest, rfl⟩ := start
  rw [List.getElem?_append_left (List.getElem?_eq_some_iff.mp found).1]
  exact found

/-- An environment and those around it stand for the given frames: each binds the names whose
declaration is complete in its scope. -/
inductive World.Chain (world : World) (heap : Heap) (globals : EnvironmentRef) :
    EnvironmentRef → Frames → Prop where
  | root {frame : Frame}
      (bound : ∀ name, (name, true) ∈ frame.scope → heap.binds globals name = true) :
      Chain world heap globals globals [frame]
  | child {ref parent : EnvironmentRef} {frame : Frame} {outer : Frames} (inner : ref ≠ globals)
      (declares : world.declared[ref.index]? = some frame.declared)
      (listed : ∀ entry ∈ frame.scope, entry.1 ∈ frame.declared)
      (bound : ∀ name, (name, true) ∈ frame.scope → heap.binds ref name = true)
      (enclosed : heap.parent? ref = some parent) (settled : outer.Settled)
      (rest : Chain world heap globals parent outer) :
      Chain world heap globals ref (frame :: outer)

namespace World.Chain

variable {world later : World} {heap after : Heap} {globals ref : EnvironmentRef}
  {frames : Frames}

/-- Environments stand for the same frames in a later world. -/
theorem mono (chain : world.Chain heap globals ref frames) (wider : world.Extends later)
    (grows : heap.Grows after) : later.Chain after globals ref frames := by
  induction chain with
  | root bound => exact .root fun name member => grows.names _ _ (bound name member)
  | child inner declares listed bound enclosed settled _ ih =>
      refine .child inner (prefix_getElem? wider.declared declares) listed
        (fun name member => grows.names _ _ (bound name member)) ?_ settled ih
      rw [grows.parents _ (Heap.inside_of_parent? enclosed)]
      exact enclosed

/-- An environment that stands for frames is in the heap. -/
theorem inside (chain : world.Chain heap globals ref frames)
    (known : globals.index < heap.environments.size) : ref.index < heap.environments.size := by
  cases chain with
  | root => exact known
  | child _ _ _ _ enclosed => exact Heap.inside_of_parent? enclosed

/-- Every environment stands for some frame. -/
theorem nonempty (chain : world.Chain heap globals ref frames) : frames ≠ [] := by
  cases chain <;> exact List.cons_ne_nil _ _

/-- A new name of the innermost scope is one that its frame declares. -/
theorem listed_cons {frame : Frame} {outer : Frames} {name : String} {complete : Bool}
    (rest : world.Chain heap globals ref outer) (admits : Frames.Admits name (frame :: outer))
    (listed : ∀ entry ∈ frame.scope, entry.1 ∈ frame.declared) :
    ∀ entry ∈ (name, complete) :: frame.scope, entry.1 ∈ frame.declared := by
  refine List.forall_mem_cons.mpr ⟨?_, listed⟩
  cases rest <;> exact admits

/-- An incomplete declaration needs no binding. -/
theorem bind_incomplete (chain : world.Chain heap globals ref frames) {name : String}
    (admits : frames.Admits name) :
    world.Chain heap globals ref (frames.bind name false) := by
  cases chain with
  | root bound => exact .root fun other member => bound other (by simpa using member)
  | child inner declares listed bound enclosed settled rest =>
      exact .child inner declares (rest.listed_cons admits listed)
        (fun other member => bound other (by simpa using member)) enclosed settled rest

/-- A complete declaration needs a binding. -/
theorem bind_complete (chain : world.Chain heap globals ref frames) {name : String}
    (admits : frames.Admits name) (here : heap.binds ref name = true) :
    world.Chain heap globals ref (frames.bind name true) := by
  have both {scope : Scope} (old : ∀ other, (other, true) ∈ scope → heap.binds ref other = true) :
      ∀ other, (other, true) ∈ (name, true) :: scope → heap.binds ref other = true := by
    intro other member
    rcases List.mem_cons.mp member with same | member
    · cases same
      exact here
    · exact old other member
  cases chain with
  | root bound => exact .root (both bound)
  | child inner declares listed bound enclosed settled rest =>
      exact .child inner declares (rest.listed_cons admits listed) (both bound) enclosed settled
        rest

/-- A declaration can be forgotten. -/
theorem of_bind {name : String} {complete : Bool} (nonempty : frames ≠ [])
    (chain : world.Chain heap globals ref (frames.bind name complete)) :
    world.Chain heap globals ref frames := by
  cases frames with
  | nil => exact absurd rfl nonempty
  | cons frame outer =>
      cases chain with
      | root bound => exact .root fun other member => bound other (List.mem_cons_of_mem _ member)
      | child inner declares listed bound enclosed settled rest =>
          exact .child inner declares (List.forall_mem_cons.mp listed).2
            (fun other member => bound other (List.mem_cons_of_mem _ member)) enclosed settled rest

/-- A name that the innermost scope declares may be defined in the environment of this scope. -/
theorem admits (chain : world.Chain heap globals ref frames) {name : String}
    (admits : frames.Admits name) (inner : ref ≠ globals) {names : List String}
    (declares : world.declared[ref.index]? = some names) : name ∈ names := by
  cases chain with
  | root => exact absurd rfl inner
  | child _ known _ _ _ _ rest =>
      rw [known, Option.some.injEq] at declares
      rw [← declares]
      cases rest <;> exact admits

end World.Chain

/-- The frames of the body of a function are those of its parameters and of its environment. -/
structure World.Houses (world : World) (rule : Site → Prop) (heap : Heap)
    (globals : EnvironmentRef) (closure : Closure) (home : Frames) : Prop where
  suits : Statement.Suits rule ⟨true, false⟩ home closure.body
  chain : ∃ outer, home = Frame.ofFunction closure.parameters closure.body :: outer ∧
    world.Chain heap globals closure.environment outer

/-- A machine fits a world if its environments bind only names that their scopes declare and its
functions live in the environments of their frames. -/
structure World.Fits (world : World) (rule : Site → Prop) (locator : Locator)
    (machine : Machine) : Prop where
  located : machine.locator = locator
  tame : machine.Tame
  environments : world.declared.length = machine.heap.environments.size
  functions : world.homes.length = machine.heap.functions.size
  known : machine.globals.index < machine.heap.environments.size
  outermost : machine.heap.parent? machine.globals = none
  descends : ∀ ref parent, machine.heap.parent? ref = some parent → parent.index < ref.index
  confined : ∀ ref names name, ref ≠ machine.globals →
    world.declared[ref.index]? = some names → machine.heap.binds ref name = true → name ∈ names
  closures : ∀ ref closure, machine.heap.closure? ref = some closure →
    ∃ home, world.homes[ref.index]? = some home ∧
      world.Houses rule machine.heap machine.globals closure home

namespace World

/-- The world after an environment is made for a scope with the given names. -/
def declare (world : World) (names : List String) : World :=
  ⟨world.declared ++ [names], world.homes⟩

/-- The world after a function is made whose body has the given frames. -/
def house (world : World) (home : Frames) : World :=
  ⟨world.declared, world.homes ++ [home]⟩

/-- A new environment extends the world. -/
theorem extends_declare (world : World) (names : List String) :
    world.Extends (world.declare names) :=
  ⟨List.prefix_append _ _, List.prefix_rfl⟩

/-- A new function extends the world. -/
theorem extends_house (world : World) (home : Frames) : world.Extends (world.house home) :=
  ⟨List.prefix_rfl, List.prefix_append _ _⟩

/-- The last environment has the names that it was made for. -/
theorem declare_last {world : World} {size : Nat} (length : world.declared.length = size)
    (names : List String) : (world.declare names).declared[size]? = some names := by
  rw [← length]
  exact List.getElem?_concat_length

end World

namespace World.Fits

variable {world : World} {rule : Site → Prop} {locator : Locator} {machine after : Machine}

/-- A function lives in the same frames in a later world. -/
theorem houses_mono {later : World} {heap next : Heap} {globals : EnvironmentRef}
    {closure : Closure} {home : Frames} (houses : world.Houses rule heap globals closure home)
    (wider : world.Extends later) (grows : heap.Grows next) :
    later.Houses rule next globals closure home := by
  obtain ⟨outer, shape, chain⟩ := houses.chain
  exact ⟨houses.suits, outer, shape, chain.mono wider grows⟩

/-- Actions that keep the environments and functions keep the fit. -/
theorem steady (fits : world.Fits rule locator machine) (same : machine.SameScoping after) :
    world.Fits rule locator after := by
  have grows : machine.heap.Grows after.heap := .of_environments_eq same.environments
  have parents (ref : EnvironmentRef) : after.heap.parent? ref = machine.heap.parent? ref := by
    rw [Heap.parent?, Heap.parent?, same.environments]
  have names (ref : EnvironmentRef) (name : String) :
      after.heap.binds ref name = machine.heap.binds ref name := by
    rw [Heap.binds, Heap.binds, Heap.get?, Heap.get?, same.environments]
  constructor
  · rw [same.locator, fits.located]
  · exact same.tame fits.tame
  · rw [same.environments, fits.environments]
  · rw [same.functions, fits.functions]
  · rw [same.globals, same.environments]
    exact fits.known
  · rw [same.globals, parents]
    exact fits.outermost
  · intro ref parent enclosed
    rw [parents] at enclosed
    exact fits.descends ref parent enclosed
  · intro ref scope name inner declares bound
    rw [same.globals] at inner
    rw [names] at bound
    exact fits.confined ref scope name inner declares bound
  · intro ref closure found
    rw [Heap.closure?, same.functions] at found
    obtain ⟨home, here, houses⟩ := fits.closures ref closure found
    refine ⟨home, here, ?_⟩
    rw [same.globals]
    exact houses_mono houses (.refl world) grows

/-- The fit does not depend on where the machine is. -/
theorem moved (fits : world.Fits rule locator machine) (environment : EnvironmentRef) :
    world.Fits rule locator { machine with environment } :=
  ⟨fits.located, fits.tame, fits.environments, fits.functions, fits.known, fits.outermost,
    fits.descends, fits.confined, fits.closures⟩

/-- A variable may be defined where its scope declares it. -/
theorem define (fits : world.Fits rule locator machine) (ref : EnvironmentRef) (name : String)
    (value : Value) (allowed : ∀ names, ref ≠ machine.globals →
      world.declared[ref.index]? = some names → name ∈ names) :
    world.Fits rule locator (machine.mapHeap (·.define ref name value)) := by
  have grows := Heap.Grows.define machine.heap ref name value
  constructor
  · exact fits.located
  · exact fits.tame
  · exact fits.environments.trans (machine.heap.define_size ref name value).symm
  · exact fits.functions
  · exact Nat.lt_of_lt_of_le fits.known grows.size
  · exact (machine.heap.parent?_define ref _ name value).trans fits.outermost
  · intro other parent enclosed
    exact fits.descends other parent
      ((machine.heap.parent?_define ref other name value).symm.trans enclosed)
  · intro other names sought inner declares bound
    rcases (machine.heap.binds_define ref other name sought value).mp bound with
      ⟨rfl, rfl, _⟩ | bound
    · exact allowed names inner declares
    · exact fits.confined other names sought inner declares bound
  · intro function closure found
    obtain ⟨home, here, houses⟩ := fits.closures function closure found
    exact ⟨home, here, houses_mono houses (.refl world) grows⟩

/-- A new environment binds only names of its scope and lies inside an older one. -/
theorem newEnvironment (fits : world.Fits rule locator machine) (bindings : Bindings)
    (parent : EnvironmentRef) (inside : parent.index < machine.heap.environments.size)
    (names : List String) (own : ∀ name, (bindings.get? name).isSome = true → name ∈ names) :
    (world.declare names).Fits rule locator
      (machine.mapHeap fun heap => (heap.newEnvironment ⟨bindings, some parent⟩).2) := by
  have grows := Heap.Grows.newEnvironment machine.heap ⟨bindings, some parent⟩
  constructor
  · exact fits.located
  · exact fits.tame
  · change (world.declared ++ [names]).length =
      (machine.heap.newEnvironment ⟨bindings, some parent⟩).2.environments.size
    rw [machine.heap.newEnvironment_size, List.length_append, fits.environments]
    rfl
  · exact fits.functions
  · exact Nat.lt_of_lt_of_le fits.known grows.size
  · exact (grows.parents _ fits.known).trans fits.outermost
  · intro ref outer enclosed
    have found := (machine.heap.parent?_newEnvironment _ ref).symm.trans enclosed
    by_cases fresh : ref = (machine.heap.newEnvironment ⟨bindings, some parent⟩).1
    · rw [if_pos fresh] at found
      cases found
      rw [fresh]
      exact inside
    · rw [if_neg fresh] at found
      exact fits.descends ref outer found
  · intro ref scope name inner declares bound
    change ((machine.heap.newEnvironment ⟨bindings, some parent⟩).2.get? ref name).isSome =
      true at bound
    rw [machine.heap.get?_newEnvironment] at bound
    by_cases fresh : ref = (machine.heap.newEnvironment ⟨bindings, some parent⟩).1
    · rw [if_pos fresh] at bound
      have last := declare_last fits.environments names
      rw [fresh] at declares
      rw [← Option.some.inj (last.symm.trans declares)]
      exact own name bound
    · rw [if_neg fresh] at bound
      have old := Heap.inside_of_binds bound
      rw [World.declare, List.getElem?_append_left (by rw [fits.environments]; exact old)]
        at declares
      exact fits.confined ref scope name inner declares bound
  · intro ref closure found
    obtain ⟨home, here, houses⟩ := fits.closures ref closure found
    exact ⟨home, here, houses_mono houses (world.extends_declare names) grows⟩

/-- A new function lives in the current environment. -/
theorem newFunction (fits : world.Fits rule locator machine) (closure : Closure) (home : Frames)
    (houses : world.Houses rule machine.heap machine.globals closure home) :
    (world.house home).Fits rule locator
      (machine.mapHeap fun heap => (heap.newFunction closure).2) := by
  have grows : machine.heap.Grows (machine.heap.newFunction closure).2 := .of_environments_eq rfl
  constructor
  · exact fits.located
  · exact fits.tame
  · exact fits.environments
  · change (world.homes ++ [home]).length = (machine.heap.functions.push closure).size
    rw [Array.size_push, List.length_append, fits.functions]
    rfl
  · exact fits.known
  · exact fits.outermost
  · exact fits.descends
  · exact fits.confined
  · intro ref other found
    change (machine.heap.functions.push closure)[ref.index]? = some other at found
    rw [Array.getElem?_push] at found
    by_cases fresh : ref.index = machine.heap.functions.size
    · rw [if_pos fresh, Option.some.injEq] at found
      refine ⟨home, ?_, found ▸ houses_mono houses (world.extends_house home) grows⟩
      rw [fresh, ← fits.functions]
      exact List.getElem?_concat_length
    · rw [if_neg fresh] at found
      obtain ⟨old, here, oldHouses⟩ := fits.closures ref other found
      exact ⟨old, prefix_getElem? (world.extends_house home).homes here,
        houses_mono oldHouses (world.extends_house home) grows⟩

/-- A builtin may have any name, since it is global. -/
theorem install (fits : world.Fits rule locator machine) (builtin : Builtin)
    (tame : builtin.Tame) : world.Fits rule locator (machine.install builtin) := by
  have defined := fits.define machine.globals builtin.name
    (.builtin ⟨builtin.name, builtin.arity, machine.library.size⟩)
    (fun _ inner => absurd rfl inner)
  refine ⟨defined.located, ?_, defined.environments, defined.functions, defined.known,
    defined.outermost, defined.descends, defined.confined, defined.closures⟩
  intro slot other found
  change (machine.library.push builtin)[slot]? = some other at found
  rw [Array.getElem?_push] at found
  split at found
  · cases found
    exact tame
  · exact fits.tame slot other found

/-- A machine that is made ready fits the same world. -/
theorem ready (fits : world.Fits rule locator machine) (other : Locator) :
    world.Fits rule other (machine.ready other) :=
  ⟨rfl, fits.tame, fits.environments, fits.functions, fits.known, fits.outermost, fits.descends,
    fits.confined, fits.closures⟩

end World.Fits

/-- The world with the global environment only. -/
def World.first : World := ⟨[[]], []⟩

/-- A machine without builtins fits the first world. -/
theorem World.first_fits_bare (rule : Site → Prop) (files : FileSystem) (clock : Clock)
    (sink : Sink) :
    World.first.Fits rule Distances.empty.locator (Machine.bare files clock sink) := by
  have parents (ref : EnvironmentRef) :
      (Machine.bare files clock sink).heap.parent? ref = none := by
    change (Heap.empty.newEnvironment ⟨[], none⟩).2.parent? ref = none
    rw [Heap.parent?_newEnvironment]
    split
    · rfl
    · simp [Heap.parent?, Heap.empty]
  refine ⟨rfl, ?_, rfl, rfl, Nat.zero_lt_one, parents _, ?_, ?_, ?_⟩
  · intro slot builtin found
    cases (Array.getElem?_eq_some_iff.mp found).1
  · intro ref parent enclosed
    rw [parents] at enclosed
    cases enclosed
  · intro ref names name inner _ bound
    have inside := Heap.inside_of_binds bound
    change ref.index < 1 at inside
    exact absurd (by cases ref; simp_all [Machine.bare, Heap.newEnvironment, Heap.empty]) inner
  · intro ref closure found
    cases (Array.getElem?_eq_some_iff.mp found).1

/-- A machine that starts fits the first world. -/
theorem World.first_fits_start (rule : Site → Prop) (locator : Locator) (files : FileSystem)
    (clock : Clock) (sink : Sink) :
    World.first.Fits rule locator ((Machine.start files clock sink).ready locator) := by
  have general (builtins : List Builtin) (tame : ∀ builtin ∈ builtins, builtin.Tame)
      (machine : Machine) (fits : World.first.Fits rule Distances.empty.locator machine) :
      World.first.Fits rule Distances.empty.locator (builtins.foldl Machine.install machine) := by
    induction builtins generalizing machine with
    | nil => exact fits
    | cons builtin rest ih =>
        have parts := List.forall_mem_cons.mp tame
        exact ih parts.2 _ (fits.install builtin parts.1)
  exact (general _ Builtin.standard_tame _ (first_fits_bare rule files clock sink)).ready locator

end OffsideScript
