import OffsideScript.Proofs.Machine.Elementary
import OffsideScript.Proofs.Machine.Mirror
import OffsideScript.Proofs.Scope.Environment
import OffsideScript.Proofs.Value.OrderedMap

namespace OffsideScript

/-- What a run keeps as long as its locator, its globals and its library stay as they are: the heap is
admitted, the values at hand are admitted, expressions are evaluated in admitted places, and variables are
declared in admitted scopes. The laws say so for everything that a run can do to the heap. An assignment finds
its name bound, and a declaration need not. -/
structure Regime where
  locator : Locator
  globals : EnvironmentRef
  library : Array Builtin
  heap : Heap → Prop
  value : Value → Prop
  place : EnvironmentRef → Prop
  scope : EnvironmentRef → Prop
  place_of_scope : ∀ ref, scope ref → place ref
  plain : ∀ item : Value, item.IsPlain → value item
  read : ∀ memory current node name ref item, heap memory → place current →
    locator memory current globals node name = some ref → memory.get? ref name = some item →
    value item
  element : ∀ memory ref, heap memory → value (.array ref) →
    ∀ item ∈ memory.array ref, value item
  entry : ∀ memory ref, heap memory → value (.map ref) →
    ∀ entry ∈ (memory.map ref).entries, value entry.2
  home : ∀ memory ref closure, heap memory → value (.function ref) →
    memory.closure? ref = some closure → place closure.environment
  assign : ∀ memory current node name ref item, heap memory → place current →
    locator memory current globals node name = some ref → memory.binds ref name = true →
    value item → heap (memory.define ref name item)
  define : ∀ memory ref name item, heap memory → scope ref → value item →
    heap (memory.define ref name item)
  newArray : ∀ memory elements, heap memory → (∀ item ∈ elements, value item) →
    heap (memory.newArray elements).2 ∧ value (memory.newArray elements).1
  newMap : ∀ memory map, heap memory → (∀ entry ∈ map.entries, value entry.1 ∧ value entry.2) →
    heap (memory.newMap map).2 ∧ value (memory.newMap map).1
  newFunction : ∀ memory closure, heap memory → place closure.environment →
    heap (memory.newFunction closure).2 ∧ value (memory.newFunction closure).1
  newEnvironment : ∀ memory bindings parent, heap memory → place parent →
    (∀ binding ∈ bindings, value binding.2) →
    heap (memory.newEnvironment ⟨bindings, some parent⟩).2 ∧
      scope (memory.newEnvironment ⟨bindings, some parent⟩).1
  setElement : ∀ memory ref position item, heap memory → value (.array ref) → value item →
    heap (memory.setElement ref position item)
  insertEntry : ∀ memory ref key item, heap memory → value (.map ref) → value key → value item →
    heap (memory.insertEntry ref key item)
  perform : ∀ builtin ∈ library, ∀ (arguments : List Value) (host : Host), heap host.heap →
    (∀ item ∈ arguments, value item) →
    heap (finalState (builtin.action arguments host)).heap ∧
      ∀ result after, builtin.action arguments host = .ok result after → value result

namespace Regime

variable {α β : Type} (regime : Regime)

/-- A machine that runs under a regime in an environment. -/
structure Admits (current : EnvironmentRef) (machine : Machine) : Prop where
  heap : regime.heap machine.heap
  environment : machine.environment = current
  globals : machine.globals = regime.globals
  locator : machine.locator = regime.locator
  library : machine.library = regime.library

/-- An outcome is admitted, and a result is allowed. -/
def Ends (current : EnvironmentRef) (allowed : α → Prop) : EStateM.Result Halt Machine α → Prop
  | .ok value after => regime.Admits current after ∧ allowed value
  | .error _ after => regime.Admits current after

/-- An action keeps to a regime, however it ends, and yields what is allowed. -/
def Keeps (current : EnvironmentRef) (action : Exec α) (allowed : α → Prop) : Prop :=
  ∀ machine, regime.Admits current machine → regime.Ends current allowed (action machine)

variable {regime} {current : EnvironmentRef} {allowed : α → Prop}

/-- A heap may be exchanged for another one that is admitted. -/
theorem Admits.withHeap {machine : Machine} (admits : regime.Admits current machine)
    {memory : Heap} (kept : regime.heap memory) :
    regime.Admits current { machine with host.heap := memory } :=
  ⟨kept, admits.environment, admits.globals, admits.locator, admits.library⟩

/-- The machine at the end is admitted, however the action ended. -/
theorem Ends.admits {result : EStateM.Result Halt Machine α}
    (ends : regime.Ends current allowed result) : regime.Admits current (finalState result) := by
  cases result with
  | ok value after => exact ends.1
  | error halt after => exact ends

namespace Keeps

/-- Actions that keep to a regime do so one after another. -/
theorem bind {action : Exec α} {next : α → Exec β} {permitted : β → Prop}
    (first : regime.Keeps current action allowed)
    (second : ∀ value, allowed value → regime.Keeps current (next value) permitted) :
    regime.Keeps current (action >>= next) permitted := by
  intro machine admits
  have ends := first machine admits
  cases ran : action machine with
  | ok value middle =>
      rw [ran] at ends
      rw [bind_of_ok ran]
      exact second value ends.2 middle ends.1
  | error halt middle =>
      rw [ran] at ends
      rw [bind_of_error ran]
      exact ends

theorem pure {value : α} (permitted : allowed value) :
    regime.Keeps current (pure value) allowed :=
  fun _ admits => ⟨admits, permitted⟩

/-- More may be allowed of an action that keeps to a regime. -/
theorem mono {action : Exec α} {more : α → Prop} (keeps : regime.Keeps current action allowed)
    (implies : ∀ value, allowed value → more value) : regime.Keeps current action more := by
  intro machine admits
  have ends := keeps machine admits
  cases ran : action machine with
  | ok value after =>
      rw [ran] at ends
      exact ⟨ends.1, implies value ends.2⟩
  | error halt after =>
      rw [ran] at ends
      exact ends

/-- Any halt keeps to a regime. -/
theorem throw (halt : Halt) : regime.Keeps current (throw halt : Exec α) allowed :=
  fun _ admits => admits

/-- An error keeps to a regime. -/
theorem fail (token : Token) (reason : RuntimeError.Reason) :
    regime.Keeps current (Exec.fail token reason : Exec α) allowed :=
  fun _ admits => admits

/-- An action may depend on the machine that it starts on. -/
theorem get {action : Machine → Exec α}
    (kept : ∀ machine, regime.Admits current machine →
      regime.Keeps current (action machine) allowed) :
    regime.Keeps current (do action (← get)) allowed :=
  fun machine admits => kept machine admits machine admits

/-- A change of the machine that is undone at the end. -/
theorem around {action : Exec α} {inner : EnvironmentRef} {enter : Machine → Machine}
    {leave : Machine → Machine → Machine} (kept : regime.Keeps inner action allowed)
    (entering : ∀ machine, regime.Admits current machine → regime.Admits inner (enter machine))
    (leaving : ∀ machine after, regime.Admits current machine → regime.Admits inner after →
      regime.Admits current (leave machine after)) :
    regime.Keeps current (Exec.around enter leave action) allowed := by
  intro machine admits
  have ends := kept (enter machine) (entering machine admits)
  unfold Exec.around
  cases ran : action (enter machine) with
  | ok value after =>
      rw [ran] at ends
      exact ⟨leaving machine after admits ends.1, ends.2⟩
  | error halt after =>
      rw [ran] at ends
      exact leaving machine after admits ends

/-- What keeps to a regime inside a setting does so outside of it. -/
theorem inside {action : Exec α} (setting : Setting)
    (kept : regime.Keeps (setting.environment current) action allowed) :
    regime.Keeps current (setting.around action) allowed := by
  refine kept.around (fun machine admits => ?_) fun machine after before admits => ?_
  · obtain ⟨heap, environment, globals, locator, library⟩ := admits
    cases setting with
    | here | loop => exact ⟨heap, environment, globals, locator, library⟩
    | within _ | call _ => exact ⟨heap, rfl, globals, locator, library⟩
  · obtain ⟨heap, environment, globals, locator, library⟩ := admits
    cases setting with
    | here | loop => exact ⟨heap, environment, globals, locator, library⟩
    | within _ | call _ => exact ⟨heap, before.environment, globals, locator, library⟩

/-- Plain values are at hand everywhere. -/
theorem plain {item : Value} (isPlain : item.IsPlain) :
    regime.Keeps current (Pure.pure item) regime.value :=
  .pure (regime.plain item isPlain)

/-- An action may take something from the heap. -/
theorem view (look : Heap → α) (seen : ∀ memory, regime.heap memory → allowed (look memory)) :
    regime.Keeps current (do return look (← MonadState.get).heap) allowed :=
  fun machine admits => ⟨admits, seen machine.heap admits.heap⟩

/-- A change of the heap keeps to a regime that allows it. -/
theorem change {step : Heap → Heap}
    (kept : ∀ memory, regime.heap memory → regime.heap (step memory)) :
    regime.Keeps current (modify (·.mapHeap step)) fun _ => True :=
  fun machine admits => ⟨admits.withHeap (kept machine.heap admits.heap), trivial⟩

/-- Rendering keeps to a regime. -/
theorem render (item : Value) : regime.Keeps current (Exec.render item) fun _ => True :=
  .view (·.render item) fun _ _ => trivial

/-- An array of values at hand may be made. -/
theorem newArray {elements : Array Value} (good : ∀ item ∈ elements, regime.value item) :
    regime.Keeps current (Exec.newArray elements) regime.value := by
  intro machine admits
  have kept := regime.newArray machine.heap elements admits.heap good
  exact ⟨admits.withHeap kept.1, kept.2⟩

/-- A map of values at hand may be made. -/
theorem newMap {map : OrderedMap Value Value} (good : map.Has regime.value) :
    regime.Keeps current (Exec.newMap map) regime.value := by
  intro machine admits
  have kept := regime.newMap machine.heap map admits.heap good
  exact ⟨admits.withHeap kept.1, kept.2⟩

/-- A function may be made in an admitted place. -/
theorem newFunction (name : Token) (parameters : List Token) (body : List Statement)
    (place : regime.place current) :
    regime.Keeps current (Exec.newFunction name parameters body) regime.value := by
  intro machine admits
  have kept := regime.newFunction machine.heap ⟨name, parameters, body, machine.environment⟩
    admits.heap (admits.environment ▸ place)
  exact ⟨admits.withHeap kept.1, kept.2⟩

/-- A scope may be made below an admitted place. -/
theorem newEnvironment {bindings : Bindings} {parent : EnvironmentRef}
    (place : regime.place parent) (good : ∀ binding ∈ bindings, regime.value binding.2) :
    regime.Keeps current (Exec.newEnvironment bindings parent) regime.scope := by
  intro machine admits
  have kept := regime.newEnvironment machine.heap bindings parent admits.heap place good
  exact ⟨admits.withHeap kept.1, kept.2⟩

/-- A name may be defined in an admitted scope. -/
theorem define (name : String) {item : Value} (scope : regime.scope current)
    (good : regime.value item) :
    regime.Keeps current (Exec.define name item) fun _ => True := by
  intro machine admits
  have kept := regime.define machine.heap machine.environment name item admits.heap
    (admits.environment ▸ scope) good
  exact ⟨admits.withHeap kept, trivial⟩

/-- What is read in an admitted place is at hand. -/
theorem read (node : NodeId) (name : Token) (place : regime.place current) :
    regime.Keeps current (Exec.read node name) regime.value := by
  intro machine admits
  rw [Exec.read_eq]
  cases found : (machine.place machine.locator node name.lexeme).bind
      (machine.heap.get? · name.lexeme) with
  | none => exact admits
  | some item =>
      obtain ⟨ref, located, bound⟩ := Option.bind_eq_some_iff.mp found
      have reached := (Option.filter_eq_some_iff.mp located).1
      rw [admits.locator, admits.environment, admits.globals] at reached
      exact ⟨admits, regime.read _ _ _ _ _ _ admits.heap place reached bound⟩

/-- A value at hand may be assigned in an admitted place. -/
theorem assign (node : NodeId) (name : Token) {item : Value} (place : regime.place current)
    (good : regime.value item) :
    regime.Keeps current (Exec.assign node name item) fun _ => True := by
  intro machine admits
  rw [Exec.assign_eq]
  cases located : machine.place machine.locator node name.lexeme with
  | none => exact admits
  | some ref =>
      obtain ⟨reached, bound⟩ := Option.filter_eq_some_iff.mp located
      rw [admits.locator, admits.environment, admits.globals] at reached
      have kept := regime.assign _ _ _ _ _ _ admits.heap place reached bound good
      exact ⟨admits.withHeap kept, trivial⟩

/-- A unary operator yields a plain value. -/
theorem unary (operator : UnaryOperator) (token : Token) (operand : Value) :
    regime.Keeps current (Exec.unary operator token operand) regime.value := by
  unfold Exec.unary
  split
  · exact .plain trivial
  · exact .fail _ _
  · exact .plain trivial

/-- Arithmetic yields a plain value. -/
theorem arithmetic (token : Token) (left right : Value) {apply : Number → Number → Value}
    (isPlain : ∀ left right, (apply left right).IsPlain) :
    regime.Keeps current (Exec.arithmetic token left right apply) regime.value := by
  unfold Exec.arithmetic
  split
  · exact .plain (isPlain _ _)
  · exact .fail _ _

/-- A remainder is a plain value. -/
theorem remainder (token : Token) (left right : Value) :
    regime.Keeps current (Exec.remainder token left right) regime.value := by
  unfold Exec.remainder
  split
  · split
    · exact .plain trivial
    · exact .fail _ _
  · exact .fail _ _

/-- Joining texts and arrays of values at hand yields such a value. -/
theorem concat (token : Token) {left right : Value} (leftGood : regime.value left)
    (rightGood : regime.value right) :
    regime.Keeps current (Exec.concat token left right) regime.value := by
  unfold Exec.concat
  split
  · exact .plain trivial
  · refine .get fun machine admits => .newArray fun item member => ?_
    rcases Array.mem_append.mp member with inLeft | inRight
    · exact regime.element _ _ admits.heap leftGood item inLeft
    · exact regime.element _ _ admits.heap rightGood item inRight
  · exact .fail _ _

/-- A binary operator yields a value at hand. -/
theorem binary (operator : BinaryOperator) (token : Token) {left right : Value}
    (leftGood : regime.value left) (rightGood : regime.value right) :
    regime.Keeps current (Exec.binary operator token left right) regime.value := by
  cases operator with
  | sequence => exact .pure rightGood
  | concat => exact .concat token leftGood rightGood
  | remainder => exact .remainder token left right
  | equal | notEqual => exact .plain trivial
  | _ => exact .arithmetic token left right fun _ _ => trivial

/-- The container that a value at hand refers to is at hand. -/
theorem expectContainer (bracket : Token) {object : Value} (good : regime.value object) :
    regime.Keeps current (Exec.expectContainer bracket object)
      (Container.Has regime.value) := by
  unfold Exec.expectContainer
  split
  · exact .pure good
  · exact .pure good
  · exact (Keeps.render _).bind fun _ _ => .fail _ _

/-- A position is not a value. -/
theorem arrayPosition (bracket : Token) (index : Value) (length : Nat) :
    regime.Keeps current (Exec.arrayPosition bracket index length) fun _ => True := by
  have invalid : regime.Keeps current
      (do Exec.fail bracket (.invalidIndex (← Exec.render index)) : Exec Nat) fun _ => True :=
    (Keeps.render index).bind fun _ _ => .fail _ _
  unfold Exec.arrayPosition
  split
  · split
    · split
      · exact invalid
      · split
        · exact .pure trivial
        · exact .fail _ _
    · exact invalid
  · exact invalid

/-- Finds a position in an array as it is now. -/
theorem arrayIndex (bracket : Token) (ref : ArrayRef) (index : Value) :
    regime.Keeps current
      (do Exec.arrayPosition bracket index (← Exec.arrayLength ref)) fun _ => True := by
  have length : regime.Keeps current (Exec.arrayLength ref) fun _ => True :=
    .view (fun memory => (memory.array ref).size) fun _ _ => trivial
  exact length.bind fun length _ => .arrayPosition bracket index length

/-- The elements of a container at hand are at hand. -/
theorem element (bracket : Token) {container : Container} (index : Value)
    (holder : container.Has regime.value) :
    regime.Keeps current (Exec.element bracket container index) regime.value := by
  cases container with
  | array ref =>
      refine (arrayIndex bracket ref index).bind fun position _ => ?_
      refine .view (fun memory => (memory.array ref).getD position .nihl) fun memory admitted => ?_
      rw [Array.getD_eq_getD_getElem?]
      cases found : (memory.array ref)[position]? with
      | none => exact regime.plain _ trivial
      | some item => exact regime.element memory ref admitted holder item (Array.mem_of_getElem? found)
  | map ref =>
      refine .view (fun memory => ((memory.map ref).get? index).getD .nihl) fun memory admitted => ?_
      cases found : (memory.map ref).get? index with
      | none => exact regime.plain _ trivial
      | some item =>
          obtain ⟨entry, member, rfl⟩ := OrderedMap.mem_of_get? found
          exact regime.entry memory ref admitted holder entry member

/-- A test for an element keeps to a regime. -/
theorem checkElement (bracket : Token) (container : Container) (index : Value) :
    regime.Keeps current (Exec.checkElement bracket container index) fun _ => True := by
  cases container with
  | array ref => exact (arrayIndex bracket ref index).bind fun _ _ => .pure trivial
  | map ref => exact .pure trivial

/-- A value at hand may be put into a container at hand. -/
theorem setElement (bracket : Token) {container : Container} {index item : Value}
    (holder : container.Has regime.value) (indexGood : regime.value index)
    (itemGood : regime.value item) :
    regime.Keeps current (Exec.setElement bracket container index item) regime.value := by
  cases container with
  | array ref =>
      refine (arrayIndex bracket ref index).bind fun position _ => ?_
      exact (Keeps.change fun memory admitted =>
        regime.setElement memory ref position item admitted holder itemGood).bind
          fun _ _ => .pure holder
  | map ref =>
      exact (Keeps.change fun memory admitted =>
        regime.insertEntry memory ref index item admitted holder indexGood itemGood).bind
          fun _ _ => .pure holder

/-- The test for the number of arguments keeps to a regime. -/
theorem checkArity (closing : Token) (expected found : Nat) :
    regime.Keeps current (Exec.checkArity closing expected found) fun _ => True := by
  unfold Exec.checkArity
  split
  · exact .pure trivial
  · exact .fail _ _

/-- Printing keeps to a regime. -/
theorem print (keyword : Token) (item : Value) :
    regime.Keeps current (Exec.print keyword item) fun _ => True := by
  intro machine admits
  have same : ∀ sink, regime.Admits current { machine with sink } := fun _ =>
    ⟨admits.heap, admits.environment, admits.globals, admits.locator, admits.library⟩
  unfold Exec.print
  dsimp only
  split
  · exact ⟨same _, trivial⟩
  · exact same _

/-- A builtin that is given values at hand yields one. -/
theorem callBuiltin (closing : Token) (ref : BuiltinRef) {arguments : List Value}
    (good : ∀ item ∈ arguments, regime.value item) :
    regime.Keeps current (Exec.callBuiltin closing ref arguments) regime.value := by
  refine (checkArity closing ref.arity arguments.length).bind fun _ _ => .get fun machine admits => ?_
  cases found : machine.library[ref.slot]? with
  | none => exact .plain trivial
  | some builtin =>
      have member : builtin ∈ regime.library := admits.library ▸ Array.mem_of_getElem? found
      intro machine admits
      have kept := regime.perform builtin member arguments machine.host admits.heap good
      have same : ∀ host : Host, regime.heap host.heap →
          regime.Admits current { machine with host } := fun _ heap =>
        ⟨heap, admits.environment, admits.globals, admits.locator, admits.library⟩
      change regime.Ends current regime.value (Exec.perform closing builtin arguments machine)
      unfold Exec.perform
      cases ran : builtin.action arguments machine.host with
      | ok result host =>
          rw [ran] at kept
          exact ⟨same host kept.1, kept.2 result host rfl⟩
      | error error host =>
          rw [ran] at kept
          exact same host kept.1

end Keeps

/-- Steady actions keep to a regime. -/
theorem Keeps.steady {primitive : Primitive α} (steady : primitive.Steady)
    (takes : primitive.Takes regime.value) :
    regime.Keeps current primitive.perform (primitive.Gives regime.value) := by
  cases primitive with
  | fail token reason => exact .fail token reason
  | render item => exact .render item
  | unary operator token operand => exact .unary operator token operand
  | binary operator token left right => exact .binary operator token takes.1 takes.2
  | newArray elements => exact .newArray takes
  | newMap map => exact .newMap takes
  | expectContainer bracket object => exact .expectContainer bracket takes
  | element bracket container index => exact .element bracket index takes
  | checkElement bracket container index => exact .checkElement bracket container index
  | setElement bracket container index item =>
      exact .setElement bracket takes.1 takes.2.1 takes.2.2
  | callBuiltin closing ref arguments => exact .callBuiltin closing ref takes
  | checkArity closing expected found => exact .checkArity closing expected found
  | print keyword item => exact .print keyword item
  | read | assign | closure? | callDepth | loopDepth | environment | newEnvironment | newFunction
  | define => exact steady.elim

/-- The surroundings of a node and the environment in which it runs. -/
abbrev Spot := Surroundings × EnvironmentRef

namespace Spot

/-- A declaration and a loop change the surroundings and not the environment. -/
def moves : Moves Spot where
  surroundings := Prod.fst
  bind spot name complete := (spot.1.bind name complete, spot.2)
  looping spot := (spot.1.looping, spot.2)
  surroundings_bind _ _ _ := rfl
  surroundings_looping _ := rfl

/-- The parts of a statement run in its environment. -/
theorem into_environment (spot : Spot) (step : Statement) : (moves.into spot step).2 = spot.2 := by
  cases step with
  | declare name initial => cases initial <;> rfl
  | _ => rfl

/-- The statements of a block run in one environment. -/
theorem extend_environment (spot : Spot) (step : Statement) : (moves.extend spot step).2 = spot.2 := by
  cases step <;> rfl

end Spot

/-- What may run in an environment. Only a statement that declares a name has to be in a scope. -/
def Runs (regime : Regime) (current : EnvironmentRef) : Text → Prop
  | .expression _ => regime.place current
  | .statement step => regime.place current ∧ (step.declared? ≠ none → regime.scope current)
  | .statements _ => regime.scope current
  | .body _ => regime.place current

/-- The parts of what may run may run too. -/
theorem Runs.part {spot inner : Spot} {text part : Text} (runs : regime.Runs spot.2 text)
    (isPart : text.Part Spot.moves spot inner part) : regime.Runs inner.2 part := by
  cases isPart with
  | child member => exact runs
  | operand member =>
      rw [Spot.into_environment]
      exact runs.1
  | block member =>
      rw [Spot.into_environment]
      exact runs.1
  | head => exact ⟨regime.place_of_scope _ runs, fun _ => runs⟩
  | tail =>
      rw [Spot.extend_environment]
      exact runs

/-- What may run at a spot does not depend on the calls and loops around it. -/
def terrain (regime : Regime) : Terrain Spot where
  toMoves := Spot.moves
  suits spot := regime.Runs spot.2
  parts := Runs.part
  Called _ := True
  Looped _ := True
  called_bind := id
  looped_bind := id
  called_looping := id
  Good := regime.value
  plain := regime.plain

/-- An action keeps to a regime, and what it yields is allowed at some spot in the same environment. -/
def KeepsNear (regime : Regime) (spot : Spot) (action : Exec α) (post : α → Spot → Prop) : Prop :=
  regime.Keeps spot.2 action fun value => ∃ later, later.2 = spot.2 ∧ post value later

namespace KeepsNear

variable {spot : Spot} {action : Exec α}

/-- The next action starts in the environment of the first. -/
theorem next {next : α → Exec β} {middle : α → Spot → Prop} {post : β → Spot → Prop}
    (first : regime.KeepsNear spot action middle)
    (second : ∀ value later, middle value later → regime.KeepsNear later (next value) post) :
    regime.KeepsNear spot (action >>= next) post := by
  refine Keeps.bind first fun value near => ?_
  obtain ⟨later, same, holds⟩ := near
  have following := second value later holds
  unfold KeepsNear at following
  rw [same] at following
  exact following

/-- What is kept wherever the spot is in the same environment. -/
theorem of_keeps {allowed : α → Prop} {post : α → Spot → Prop}
    (keeps : regime.Keeps spot.2 action allowed) (later : Spot) (same : later.2 = spot.2)
    (implies : ∀ value, allowed value → post value later) : regime.KeepsNear spot action post :=
  keeps.mono fun value good => ⟨later, same, implies value good⟩

/-- The tests of a leaving statement keep to a regime. -/
theorem leave {step : Statement} {depth : Primitive Nat} {token : Token}
    {reason : RuntimeError.Reason} {action : Exec Flow} {post : Flow → Spot → Prop}
    (leaves : step.Leaves depth token reason) (shown : regime.KeepsNear spot action post) :
    regime.KeepsNear spot (do
      if (← depth.perform) = 0 then Exec.fail token reason else action) post := by
  rw [leaves.perform_eq]
  simp only [bind_assoc, pure_bind]
  refine Keeps.get fun machine _ => ?_
  split
  · exact .fail token reason
  · exact shown

/-- A block runs in a new scope. -/
theorem block {action : Exec Flow} (place : regime.place spot.2)
    (shown : ∀ environment, regime.scope environment →
      regime.KeepsNear (spot.1.opening, environment) action fun flow _ => regime.terrain.Ends spot flow) :
    regime.KeepsNear spot (do
      let parent ← Primitive.environment.perform
      let environment ← (Primitive.newEnvironment [] parent).perform
      (Setting.within environment).around action)
      fun flow later => later = spot ∧ regime.terrain.Ends spot flow := by
  refine Keeps.get fun machine admits => ?_
  rw [admits.environment]
  refine (Keeps.newEnvironment place fun _ member => absurd member List.not_mem_nil).bind
    fun environment scope => ?_
  refine (Keeps.inside (.within environment) (shown environment scope)).mono ?_
  rintro flow ⟨later, _, ends⟩
  exact ⟨spot, rfl, rfl, ends⟩

/-- The body of a function runs in a new scope below the environment of the function. -/
theorem call {closing : Token} {ref : FunctionRef} {arguments : List Value}
    {answer : {β : Type} → Surroundings → Request β → Exec β}
    (function : regime.value (.function ref)) (good : ∀ item ∈ arguments, regime.value item)
    (answers : ∀ (inner : Spot) (block : List Statement), regime.scope inner.2 →
      regime.KeepsNear inner (answer inner.1 (.executeAll block))
        fun flow _ => regime.terrain.Ends inner flow) :
    regime.KeepsNear spot
      (Interpretation.plain.step answer spot.1 (.call closing (.function ref) arguments))
      fun value later => later = spot ∧ regime.value value := by
  have settled {value : Value} (good : regime.value value) : ∃ later : Spot, later.2 = spot.2 ∧
      later = spot ∧ regime.value value := ⟨spot, rfl, rfl, good⟩
  rw [Interpretation.step_call]
  have found : regime.Keeps spot.2 (Primitive.closure? ref).perform fun found =>
      ∀ closure, found = some closure → regime.place closure.environment :=
    .view (·.closure? ref) fun memory admitted closure known =>
      regime.home memory ref closure admitted function known
  refine found.bind fun found homes => ?_
  cases found with
  | none => exact .pure (settled (regime.plain .nihl trivial))
  | some closure =>
      have bound : ∀ binding ∈ closure.bindings arguments, regime.value binding.2 :=
        fun binding member => good _ (Closure.mem_bindings member)
      refine (Keeps.checkArity closing _ _).bind fun _ _ => ?_
      refine Keeps.bind (.get fun _ _ => .pure trivial) fun depth (_ : True) => ?_
      split
      · exact .fail _ _
      · refine (Keeps.newEnvironment (homes closure rfl) bound).bind fun environment scope => ?_
        refine Keeps.bind (.pure trivial) fun scopes (_ : True) => ?_
        refine (Keeps.inside (.call environment)
          (answers (.ofFunction scopes, environment) closure.body scope)).bind ?_
        rintro flow ⟨later, _, ends⟩
        cases flow with
        | returned value => exact .pure (settled ends.2)
        | _ => exact .pure (settled (regime.plain .nihl trivial))

end KeepsNear

/-- Any statement may leave where it is. -/
theorem mayLeave (spot : Spot) (step : Statement) : regime.terrain.MayLeave spot step := by
  cases step <;> trivial

/-- Every run keeps to a regime. -/
def keeping (regime : Regime) : Analysis .plain Spot where
  toTerrain := regime.terrain
  Shows := regime.KeepsNear
  pure holds := .pure ⟨_, rfl, holds⟩
  next := KeepsNear.next
  exhausted := .throw _
  arrive _ := .pure ⟨_, rfl, rfl⟩
  perform steady takes := .of_keeps (.steady steady takes) _ rfl fun _ good => ⟨rfl, good⟩
  read place := .of_keeps (.read _ _ place) _ rfl fun _ good => ⟨rfl, good⟩
  assign place good := .of_keeps (.assign _ _ place good) _ rfl fun _ _ => rfl
  initial _ shown := shown.mono fun _ near => by
    obtain ⟨_, _, _, good⟩ := near
    exact ⟨_, rfl, rfl, good⟩
  define suits good := .of_keeps (.define _ (suits.2 (Option.some_ne_none _)) good)
    (Spot.moves.bind _ _ true) rfl fun _ _ => rfl
  function suits := .of_keeps ((Keeps.newFunction _ _ _ suits.1).bind fun _ good =>
    .define _ (suits.2 (Option.some_ne_none _)) good) (Spot.moves.bind _ _ true) rfl fun _ _ => rfl
  leave _ leaves shown := .leave leaves (shown (mayLeave _ _))
  loop shown := (Keeps.inside .loop shown).mono fun _ near => by
    obtain ⟨_, _, _, allowed⟩ := near
    exact ⟨_, rfl, rfl, allowed⟩
  block place shown := .block place fun environment scope => shown (_, environment) rfl scope
  call function good answers := .call function good answers

variable (regime) (fuel : Nat)

/-- Evaluating an expression keeps to a regime. -/
theorem keeps_evaluate (expression : Expression) (place : regime.place current) :
    regime.Keeps current (Exec.evaluate fuel expression) regime.value := by
  have shown := regime.keeping.request fuel (.outermost, current) (.evaluate expression) place
  rw [Request.interpret_plain] at shown
  exact shown.mono fun value near => by
    obtain ⟨_, _, _, good⟩ := near
    exact good

/-- Executing a statement keeps to a regime. -/
theorem keeps_execute (statement : Statement) (place : regime.place current)
    (scope : statement.declared? ≠ none → regime.scope current) :
    regime.Keeps current (Exec.execute fuel statement) fun _ => True := by
  have shown := regime.keeping.request fuel (.outermost, current) (.execute statement) ⟨place, scope⟩
  rw [Request.interpret_plain] at shown
  exact shown.mono fun _ _ => trivial

/-- Executing a block keeps to a regime. -/
theorem keeps_executeBody (body : List Statement) (place : regime.place current) :
    regime.Keeps current (Exec.executeBody fuel body) fun _ => True := by
  have shown := regime.keeping.request fuel (.outermost, current) (.executeBody body) place
  rw [Request.interpret_plain] at shown
  exact shown.mono fun _ _ => trivial

end Regime

end OffsideScript
