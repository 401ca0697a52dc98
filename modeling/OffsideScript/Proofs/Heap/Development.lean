import OffsideScript.Proofs.Machine.Configuration
import OffsideScript.Proofs.Machine.Confinement

namespace OffsideScript

namespace Heap

/-- What can become of the content of an object. -/
inductive Content.Develops : Content → Content → Prop where
  | array {before after : Array Value} (size : after.size = before.size) :
      Develops (.array before) (.array after)
  | map {before after : OrderedMap Value Value} (keys : before.keys <+: after.keys) :
      Develops (.map before) (.map after)
  | function (closure : Closure) : Develops (.function closure) (.function closure)
  | environment {before after : Environment}
      (names : ∀ name, (before.bindings.get? name).isSome = true →
        (after.bindings.get? name).isSome = true) :
      Develops (.environment before) (.environment after)

/-- All objects of one heap are in another, where their contents have developed. -/
def Develops (before after : Heap) : Prop :=
  ∀ object content, before.content? object = some content →
    ∃ later, after.content? object = some later ∧ content.Develops later

theorem Content.Develops.refl (content : Content) : content.Develops content := by
  cases content with
  | array elements => exact .array rfl
  | map map => exact .map (List.prefix_refl _)
  | function closure => exact .function closure
  | environment environment => exact .environment fun _ bound => bound

theorem Content.Develops.trans {first second third : Content} (left : first.Develops second)
    (right : second.Develops third) : first.Develops third := by
  cases left with
  | array size =>
      cases right with
      | array again => exact .array (again.trans size)
  | map keys =>
      cases right with
      | map more => exact .map (keys.trans more)
  | function closure => exact right
  | environment names =>
      cases right with
      | environment more => exact .environment fun name bound => more name (names name bound)

namespace Develops

variable {first second third before after heap : Heap}

theorem refl (heap : Heap) : heap.Develops heap :=
  fun _ content found => ⟨content, found, .refl content⟩

theorem trans (left : first.Develops second) (right : second.Develops third) :
    first.Develops third := by
  intro object content found
  obtain ⟨middle, between, early⟩ := left object content found
  obtain ⟨last, found, late⟩ := right object middle between
  exact ⟨last, found, early.trans late⟩

/-- One object may come into being or develop. -/
theorem put {changed : Object} {new : Option Content}
    (contents : ∀ object, after.content? object =
      if object = changed then new else before.content? object)
    (good : ∀ content, before.content? changed = some content →
      ∃ later, new = some later ∧ content.Develops later) : before.Develops after := by
  intro object content found
  rw [contents]
  split
  · rename_i same
    exact good content (same ▸ found)
  · exact ⟨content, found, .refl content⟩

/-- A new array changes no object. -/
theorem newArray (heap : Heap) (elements : Array Value) :
    heap.Develops (heap.newArray elements).2 := by
  apply put (heap.content?_newArray elements)
  intro content found
  simp [content?] at found

/-- A new map changes no object. -/
theorem newMap (heap : Heap) (map : OrderedMap Value Value) :
    heap.Develops (heap.newMap map).2 := by
  apply put (heap.content?_newMap map)
  intro content found
  simp [content?] at found

/-- A new function changes no object. -/
theorem newFunction (heap : Heap) (closure : Closure) :
    heap.Develops (heap.newFunction closure).2 := by
  apply put (heap.content?_newFunction closure)
  intro content found
  simp [content?, closure?] at found

/-- A new environment changes no object. -/
theorem newEnvironment (heap : Heap) (environment : Environment) :
    heap.Develops (heap.newEnvironment environment).2 := by
  apply put (heap.content?_newEnvironment environment)
  intro content found
  simp [content?] at found

/-- A definition adds to an environment or changes the value of a name there. -/
theorem define (heap : Heap) (ref : EnvironmentRef) (name : String) (value : Value) :
    heap.Develops (heap.define ref name value) := by
  apply put (heap.content?_define ref name value)
  intro content found
  obtain ⟨environment, present, rfl⟩ := Option.map_eq_some_iff.mp found
  refine ⟨_, by rw [present]; rfl, .environment fun sought bound => ?_⟩
  rw [Bindings.get?_define]
  split
  · rfl
  · exact bound

/-- Setting an element keeps the size of the array. -/
theorem setElement (heap : Heap) (ref : ArrayRef) (position : Nat) (value : Value) :
    heap.Develops (heap.setElement ref position value) := by
  apply put (heap.content?_setElement ref position value)
  intro content found
  obtain ⟨elements, present, rfl⟩ := Option.map_eq_some_iff.mp found
  exact ⟨_, by rw [present]; rfl, .array Array.size_setIfInBounds⟩

/-- Inserting an entry keeps the keys that were there, in their order. -/
theorem insertEntry (heap : Heap) (ref : MapRef) (key value : Value) :
    heap.Develops (heap.insertEntry ref key value) := by
  apply put (heap.content?_insertEntry ref key value)
  intro content found
  obtain ⟨map, present, rfl⟩ := Option.map_eq_some_iff.mp found
  refine ⟨_, by rw [present]; rfl, .map ?_⟩
  cases taken : map.position? key with
  | none =>
      rewrite [OrderedMap.keys_insert_of_none value taken]
      exact List.prefix_append _ _
  | some position =>
      rewrite [OrderedMap.keys_insert_of_some value taken]
      exact List.prefix_refl _

/-- An array keeps its size. -/
theorem array_size (develops : before.Develops after) {ref : ArrayRef}
    (alive : ref.index < before.arrays.size) :
    ref.index < after.arrays.size ∧ (after.array ref).size = (before.array ref).size := by
  obtain ⟨later, found, size⟩ := develops (.array ref) (.array (before.array ref)) (by
    simp [content?, array, alive])
  obtain ⟨elements, present, rfl⟩ := Option.map_eq_some_iff.mp found
  obtain ⟨inside, rfl⟩ := Array.getElem?_eq_some_iff.mp present
  cases size with
  | array size => exact ⟨inside, by simpa [array, inside] using size⟩

/-- A map keeps its keys, in their order. -/
theorem map_keys (develops : before.Develops after) {ref : MapRef}
    (alive : ref.index < before.maps.size) :
    ref.index < after.maps.size ∧ (before.map ref).keys <+: (after.map ref).keys := by
  obtain ⟨later, found, keys⟩ := develops (.map ref) (.map (before.map ref)) (by
    simp [content?, Heap.map, alive])
  obtain ⟨map, present, rfl⟩ := Option.map_eq_some_iff.mp found
  obtain ⟨inside, rfl⟩ := Array.getElem?_eq_some_iff.mp present
  cases keys with
  | map keys => exact ⟨inside, by simpa [Heap.map, inside] using keys⟩

/-- A name that is bound in an environment stays bound there. -/
theorem binds (develops : before.Develops after) {ref : EnvironmentRef} {name : String}
    (bound : before.binds ref name = true) : after.binds ref name = true := by
  have inside := inside_of_binds bound
  obtain ⟨later, found, names⟩ :=
    develops (.environment ref) (.environment (before.environments[ref.index])) (by
      simp [content?, inside])
  obtain ⟨environment, present, rfl⟩ := Option.map_eq_some_iff.mp found
  cases names with
  | environment names =>
      have kept := names name (by simpa [Heap.binds, get?, inside] using bound)
      simpa [Heap.binds, get?, present] using kept

end Develops

end Heap

namespace Regime

/-- A regime about the heap alone. -/
structure IsFree (regime : Regime) : Prop where
  value : ∀ item, regime.value item
  scope : ∀ ref, regime.scope ref

/-- Under builtins that leave the heap alone, every heap of a run has developed from the first. -/
def developing (start : Heap) (locator : Locator) (globals : EnvironmentRef)
    (library : Array Builtin) (standard : ∀ builtin ∈ library, builtin ∈ Builtin.standard) :
    Regime where
  locator := locator
  globals := globals
  library := library
  heap := start.Develops
  value _ := True
  place _ := True
  scope _ := True
  place_of_scope _ _ := trivial
  plain _ _ := trivial
  read _ _ _ _ _ _ _ _ _ _ := trivial
  assign _ _ _ _ _ item develops _ _ _ _ := develops.trans (.define _ _ _ item)
  define _ _ _ item develops _ _ := develops.trans (.define _ _ _ item)
  element _ _ _ _ _ _ := trivial
  entry _ _ _ _ _ _ := trivial
  home _ _ _ _ _ _ := trivial
  newArray _ elements develops _ := ⟨develops.trans (.newArray _ elements), trivial⟩
  newMap _ map develops _ := ⟨develops.trans (.newMap _ map), trivial⟩
  newFunction _ closure develops _ := ⟨develops.trans (.newFunction _ closure), trivial⟩
  newEnvironment _ _ _ develops _ _ := ⟨develops.trans (.newEnvironment _ _), trivial⟩
  setElement _ _ position item develops _ _ := develops.trans (.setElement _ _ position item)
  insertEntry _ _ key item develops _ _ _ := develops.trans (.insertEntry _ _ key item)
  perform builtin member arguments host develops _ := by
    have quiet := Builtin.standard_quiet builtin (standard builtin member) arguments host
    rw [quiet.1]
    exact ⟨develops, fun _ _ _ => trivial⟩

variable {regime : Regime} {current : EnvironmentRef} {machine : Machine}

/-- What is admitted is admitted in its own environment. -/
theorem Admits.here (admits : regime.Admits current machine) :
    regime.Admits machine.environment machine :=
  ⟨admits.heap, rfl, admits.globals, admits.locator, admits.library⟩

/-- Heaps develop under any values and in any scopes. -/
theorem IsFree.developing {start : Heap} {locator : Locator} {globals : EnvironmentRef}
    {library : Array Builtin} {standard : ∀ builtin ∈ library, builtin ∈ Builtin.standard} :
    (developing start locator globals library standard).IsFree :=
  ⟨fun _ => trivial, fun _ => trivial⟩

namespace IsFree

variable (free : regime.IsFree)
include free

/-- A free regime allows every environment. -/
theorem place (ref : EnvironmentRef) : regime.place ref :=
  regime.place_of_scope ref (free.scope ref)

/-- A free regime is kept by every primitive. -/
theorem perform {α : Type} (primitive : Primitive α) (admits : regime.Admits current machine) :
    regime.Admits current (finalState (primitive.perform machine)) := by
  have kept (steady : primitive.Steady) : regime.Admits current (finalState (primitive.perform machine)) :=
    (Keeps.steady steady (Primitive.takes_of_all free.value primitive) machine admits).admits
  cases primitive with
  | fail token reason | callDepth | loopDepth | environment | closure? ref => exact admits
  | read node name => exact (Keeps.read node name (free.place _) machine admits).admits
  | assign node name value =>
      exact (Keeps.assign node name (free.place _) (free.value value) machine admits).admits
  | newEnvironment bindings parent =>
      exact (Keeps.newEnvironment (free.place parent) (fun _ _ => free.value _) machine
        admits).admits
  | newFunction name parameters body =>
      exact (Keeps.newFunction name parameters body (free.place _) machine admits).admits
  | define name value =>
      exact (Keeps.define name (free.scope _) (free.value value) machine admits).admits
  | _ => exact kept trivial

/-- A regime about the heap alone holds at each step of a run, wherever its code comes from. -/
theorem step {first second : Configuration} (next : Configuration.Step first second)
    (admits : regime.Admits first.machine.environment first.machine) :
    regime.Admits second.machine.environment second.machine := by
  cases next with
  | @act _ _ primitive _ _ _ _ _ ran | @fail _ _ primitive _ _ _ _ _ ran =>
      have kept := free.perform primitive admits
      rw [ran] at kept
      exact kept.here
  | enter setting _ _ _ _ | resume _ setting _ _ _ _ _ | unwind _ setting _ _ _ _ _ =>
      cases setting <;>
        exact ⟨admits.heap, rfl, admits.globals, admits.locator, admits.library⟩

/-- A free regime is kept by every run. -/
theorem comes {first last : Configuration} (comes : first.Comes last)
    (admits : regime.Admits first.machine.environment first.machine) :
    regime.Admits last.machine.environment last.machine := by
  obtain ⟨count, steps⟩ := comes
  induction steps with
  | refl => exact admits
  | step next _ ih => exact ih (free.step next admits)

end IsFree

end Regime

namespace Machine

/-- A machine starts with the standard builtins. -/
theorem start_library (files : FileSystem) (clock : Clock) (sink : Sink) :
    (start files clock sink).library = Builtin.standard.toArray := rfl

/-- A machine that has the builtins that machines start with. -/
def IsStandard (machine : Machine) : Prop :=
  ∀ builtin ∈ machine.library, builtin ∈ Builtin.standard

/-- The regime under which heaps develop from that of a machine. -/
def development (machine : Machine) (standard : machine.IsStandard) : Regime :=
  .developing machine.heap machine.locator machine.globals machine.library standard

/-- A standard machine has developed from its own heap. -/
theorem development_admits (machine : Machine) (standard : machine.IsStandard) :
    (machine.development standard).Admits machine.environment machine :=
  ⟨.refl machine.heap, rfl, rfl, rfl, rfl⟩

/-- A machine starts as a standard one. -/
theorem start_isStandard (files : FileSystem) (clock : Clock) (sink : Sink) :
    (start files clock sink).IsStandard := by
  intro builtin member
  simpa [start_library] using member

end Machine

/-- From one point of a run to another the heap develops, and the builtins stay. -/
theorem Configuration.Comes.develops {first last : Configuration} (comes : first.Comes last)
    (standard : first.machine.IsStandard) :
    first.machine.heap.Develops last.machine.heap ∧ last.machine.IsStandard := by
  have kept := Regime.IsFree.developing.comes comes (first.machine.development_admits standard)
  refine ⟨kept.heap, fun builtin member => ?_⟩
  rw [kept.library] at member
  exact standard builtin member

namespace Exec

/-- The evaluator develops the heap, and the builtins stay. -/
theorem evaluate_develops {fuel : Nat} {expression : Expression} {machine after : Machine}
    {value : Value} (standard : machine.IsStandard)
    (ran : evaluate fuel expression machine = .ok value after) :
    machine.heap.Develops after.heap ∧ after.IsStandard := by
  have kept := (machine.development standard).keeps_evaluate fuel expression trivial machine
    (machine.development_admits standard)
  rw [ran] at kept
  refine ⟨kept.1.heap, fun builtin member => ?_⟩
  rw [kept.1.library] at member
  exact standard builtin member

/-- Whether an index is a position depends on the length of the array alone. -/
theorem arrayPosition_of_ok {bracket : Token} {index : Value} {length position : Nat}
    {machine after : Machine} (ran : arrayPosition bracket index length machine = .ok position after) :
    position < length ∧ ∀ other, arrayPosition bracket index length other = .ok position other := by
  cases index with
  | number value =>
      unfold arrayPosition at ran ⊢
      dsimp only at ran ⊢
      cases found : Number.magnitude? value with
      | none =>
          rw [found] at ran
          cases ran
      | some magnitude =>
          rw [found] at ran
          dsimp only at ran ⊢
          by_cases negative : (Number.isNegative value && magnitude != 0) = true
          · rw [if_pos negative] at ran
            cases ran
          · rw [if_neg negative] at ran ⊢
            by_cases inside : magnitude < length
            · rw [if_pos inside] at ran
              cases ran
              exact ⟨inside, fun _ => by rw [if_pos inside]; rfl⟩
            · rw [if_neg inside] at ran
              cases ran
  | _ => cases ran

/-- A position that an index means in an array stays its meaning while the heap develops. -/
theorem arrayPosition_develops {bracket : Token} {index : Value} {ref : ArrayRef} {position : Nat}
    {machine after last : Machine} (develops : machine.heap.Develops last.heap)
    (ran : arrayPosition bracket index (machine.heap.array ref).size machine = .ok position after) :
    arrayPosition bracket index (last.heap.array ref).size last = .ok position last := by
  obtain ⟨inside, same⟩ := arrayPosition_of_ok ran
  have alive : ref.index < machine.heap.arrays.size := by
    by_contra missing
    have empty : machine.heap.array ref = #[] := by
      simp [Heap.array, Array.getElem?_eq_none (Nat.le_of_not_lt missing)]
    simp [empty] at inside
  rw [(develops.array_size alive).2]
  exact same last

/-- A run that yields an array has ended with it. -/
theorem eq_ok_of_object? {outcome : EStateM.Result Halt Machine Value} {ref : ArrayRef}
    (yields : (result? outcome).bind Value.object? = some (.array ref)) :
    outcome = .ok (.array ref) (finalState outcome) := by
  cases outcome with
  | ok value state =>
      cases value with
      | array found =>
          cases yields
          rfl
      | _ => cases yields
  | error halt state => cases yields

/-- An element is stored at the position that the index has when the new value is known. -/
theorem evaluate_setIndex {fuel position : Nat} {object index value : Expression} {bracket : Token}
    {ref : ArrayRef} {key item : Value} {machine holding between last : Machine}
    (held : evaluate fuel object machine = .ok (.array ref) holding)
    (indexed : evaluate fuel index holding = .ok key between)
    (checked : arrayPosition bracket key (between.heap.array ref).size between = .ok position between)
    (assigned : evaluate fuel value between = .ok item last)
    (again : arrayPosition bracket key (last.heap.array ref).size last = .ok position last) :
    evaluate (fuel + 1) (.setIndex object bracket index value) machine =
      .ok (.array ref) (last.mapHeap (·.setElement ref position item)) := by
  have container : expectContainer bracket (.array ref) holding = .ok (.array ref) holding := rfl
  have check : checkElement bracket (.array ref) key between = .ok () between := by
    have length : arrayLength ref between = .ok (between.heap.array ref).size between := rfl
    rw [checkElement, bind_of_ok length, bind_of_ok checked]
    rfl
  have store : setElement bracket (.array ref) key item last =
      .ok (.array ref) (last.mapHeap (·.setElement ref position item)) := by
    have length : arrayLength ref last = .ok (last.heap.array ref).size last := rfl
    rw [setElement, bind_of_ok length, bind_of_ok again]
    rfl
  rw [evaluate, bind_of_ok held, bind_of_ok container, bind_of_ok indexed, bind_of_ok check,
    bind_of_ok assigned, store]

end Exec

namespace Machine

/-- Between two points of a run that starts with the standard builtins, every array keeps its length, the
keys of every map stay and new ones come after them, and every environment keeps its names. Therefore, when
the index of a store into an array is a position before the new value is evaluated, it is the same position
afterwards, whatever the evaluation does, and the store succeeds. -/
theorem collections_only_grow (files : FileSystem) (clock : Clock) (sink : Sink) (program : Program)
    (locator : Locator) {earlier later : Configuration}
    (early : ((start files clock sink).launch program locator).Comes earlier)
    (late : earlier.Comes later) :
    (∀ ref : ArrayRef, ref.index < earlier.machine.heap.arrays.size →
      ref.index < later.machine.heap.arrays.size ∧
        (later.machine.heap.array ref).size = (earlier.machine.heap.array ref).size) ∧
    (∀ ref : MapRef, ref.index < earlier.machine.heap.maps.size →
      ref.index < later.machine.heap.maps.size ∧
        (earlier.machine.heap.map ref).keys <+: (later.machine.heap.map ref).keys) ∧
    (∀ ref name, earlier.machine.heap.binds ref name = true →
      later.machine.heap.binds ref name = true) ∧
    ∀ fuel object index value bracket ref key item position holding between last,
      Exec.evaluate fuel object earlier.machine = .ok (.array ref) holding →
      Exec.evaluate fuel index holding = .ok key between →
      Exec.arrayPosition bracket key (between.heap.array ref).size between =
        .ok position between →
      Exec.evaluate fuel value between = .ok item last →
      Exec.arrayPosition bracket key (last.heap.array ref).size last = .ok position last ∧
        Exec.evaluate (fuel + 1) (.setIndex object bracket index value) earlier.machine =
          .ok (.array ref) (last.mapHeap (·.setElement ref position item)) := by
  have standard := (early.develops (start_isStandard files clock sink)).2
  have develops := (late.develops standard).1
  refine ⟨fun _ => develops.array_size, fun _ => develops.map_keys, fun _ _ => develops.binds, ?_⟩
  intro fuel object index value bracket ref key item position holding between last held indexed
    checked assigned
  have holdingStandard := (Exec.evaluate_develops standard held).2
  have betweenStandard := (Exec.evaluate_develops holdingStandard indexed).2
  have changed := (Exec.evaluate_develops betweenStandard assigned).1
  have again := Exec.arrayPosition_develops changed checked
  exact ⟨again, Exec.evaluate_setIndex held indexed checked assigned again⟩

/-- A program stores an array into itself twice, in one expression, and then adds an entry to a map. -/
theorem collections_only_grow_cyclic :
    let machine := start ⟨[], [], true⟩ (.still 0) (.empty none)
    let a : Token := ⟨.identifier, "a", 1, none⟩
    let m : Token := ⟨.identifier, "m", 1, none⟩
    let locator := Distances.empty.locator
    let zero : Expression := .constant (.number 0)
    let inner : Expression := .setIndex (.variable 1 a) a zero (.variable 2 a)
    let outer : Expression := .setIndex (.variable 0 a) a zero inner
    let first : Program := [.declare a (some (.array [zero])), .declare m (some (.map []))]
    let rest : Program := [.evaluate outer, .evaluate (.setIndex (.variable 3 m) m zero zero)]
    let middle := finalState (Exec.executeProgram 6 first (machine.ready locator))
    let last := finalState (Exec.executeProgram 6 rest middle)
    (middle.heap.array ⟨0⟩).size = 1 ∧ (last.heap.array ⟨0⟩).size = 1 ∧
    0 < middle.heap.maps.size ∧ (middle.heap.map ⟨0⟩).keys <+: (last.heap.map ⟨0⟩).keys ∧
    middle.heap.binds ⟨0⟩ "a" = true ∧ last.heap.binds ⟨0⟩ "a" = true ∧
    ∃ assigned, Exec.arrayPosition a (.number 0) (assigned.heap.array ⟨0⟩).size assigned =
        .ok 0 assigned ∧
      Exec.evaluate 5 outer middle =
        .ok (.array ⟨0⟩) (assigned.mapHeap (·.setElement ⟨0⟩ 0 (.array ⟨0⟩))) := by
  intro machine a m locator zero inner outer first rest middle last
  obtain ⟨_, firstRan⟩ := eq_ok_of_succeeded
    (by decide +kernel : succeeded (Exec.executeProgram 6 first (machine.ready locator)) = true)
  obtain ⟨_, restRan⟩ := eq_ok_of_succeeded
    (by decide +kernel : succeeded (Exec.executeProgram 6 rest middle) = true)
  have early : (machine.launch (first ++ rest) locator).Comes ⟨.running rest.code, .nil, middle⟩ :=
    Configuration.comes_rest firstRan
  have late : Configuration.Comes ⟨.running rest.code, .nil, middle⟩
      ⟨.running (Program.code []), .nil, last⟩ := by
    have comes : Configuration.Comes ⟨.running (Program.code (rest ++ [])), .nil, middle⟩ _ :=
      Configuration.comes_rest restRan
    rwa [List.append_nil] at comes
  let holding := finalState (Exec.evaluate 4 (.variable 0 a) middle)
  let assigned := finalState (Exec.evaluate 4 inner holding)
  have held : Exec.evaluate 4 (.variable 0 a) middle = .ok (.array ⟨0⟩) holding :=
    Exec.eq_ok_of_object? (by decide +kernel)
  have given : Exec.evaluate 4 inner holding = .ok (.array ⟨0⟩) assigned :=
    Exec.eq_ok_of_object? (by decide +kernel)
  have checked : Exec.arrayPosition a (.number 0) (holding.heap.array ⟨0⟩).size holding =
      .ok 0 holding := by
    obtain ⟨position, _, ran⟩ := exists_of_succeeded (by decide +kernel :
      succeeded (Exec.arrayPosition a (.number 0) (holding.heap.array ⟨0⟩).size holding) = true)
    have single : (holding.heap.array ⟨0⟩).size = 1 := by decide +kernel
    obtain ⟨inside, same⟩ := Exec.arrayPosition_of_ok ran
    obtain rfl : position = 0 := by omega
    exact same holding
  have length : (middle.heap.array ⟨0⟩).size = 1 := by decide +kernel
  have alive : 0 < middle.heap.arrays.size := by decide +kernel
  have listed : 0 < middle.heap.maps.size := by decide +kernel
  have bound : middle.heap.binds ⟨0⟩ "a" = true := by decide +kernel
  clear_value assigned holding last middle
  obtain ⟨arrays, maps, names, stores⟩ :=
    collections_only_grow ⟨[], [], true⟩ (.still 0) (.empty none) (first ++ rest) locator early late
  exact ⟨length, (arrays ⟨0⟩ alive).2.trans length, listed, (maps ⟨0⟩ listed).2, bound,
    names ⟨0⟩ "a" bound, assigned,
    stores 4 (.variable 0 a) zero inner a ⟨0⟩ (.number 0) (.array ⟨0⟩) 0 holding holding assigned
      held rfl checked given⟩

end Machine

end OffsideScript
