import OffsideScript.Proofs.Heap.Reach
import OffsideScript.Proofs.Machine.Regime

namespace OffsideScript

namespace Builtin

variable {α β : Type}

/-- A quiet action leaves the heap as it is and yields what is allowed. -/
def Quiet (action : EStateM BuiltinError Host α) (allowed : α → Prop) : Prop :=
  ∀ host : Host, (finalState (action host)).heap = host.heap ∧
    ∀ result after, action host = .ok result after → allowed result

namespace Quiet

/-- Quiet actions are quiet one after another. -/
theorem bind {action : EStateM BuiltinError Host α} {next : α → EStateM BuiltinError Host β}
    {middle : α → Prop} {allowed : β → Prop} (first : Quiet action middle)
    (second : ∀ value, middle value → Quiet (next value) allowed) :
    Quiet (action >>= next) allowed := by
  intro host
  have before := first host
  cases ran : action host with
  | ok value between =>
      rw [ran] at before
      rw [bind_of_ok ran]
      have after := second value (before.2 value between rfl) between
      exact ⟨after.1.trans before.1, after.2⟩
  | error failure between =>
      rw [ran] at before
      rw [bind_of_error ran]
      exact ⟨before.1, fun _ _ failed => by cases failed⟩

theorem pure {value : α} {allowed : α → Prop} (permitted : allowed value) :
    Quiet (pure value) allowed := by
  refine fun host => ⟨rfl, fun result after ran => ?_⟩
  cases ran
  exact permitted

/-- An error is quiet. -/
theorem throw {allowed : α → Prop} (error : BuiltinError) :
    Quiet (throw error : EStateM BuiltinError Host α) allowed :=
  fun _ => ⟨rfl, fun _ _ failed => by cases failed⟩

/-- Looking at the host is quiet. -/
theorem get {next : Host → EStateM BuiltinError Host α} {allowed : α → Prop}
    (second : ∀ host, Quiet (next host) allowed) : Quiet (do next (← get)) allowed :=
  fun host => second host host

/-- A test for a text is quiet. -/
theorem expectText (builtin argument : String) (value : Value) :
    Quiet (expectText builtin argument value) fun _ => True := by
  cases value with
  | text value => exact .pure trivial
  | _ => exact .throw _

/-- A change of a file is quiet. -/
theorem changeFile (builtin : String)
    (change : FileSystem → String → ByteArray → Except FileError FileSystem)
    (path content : Value) : Quiet (changeFile builtin change path content) Value.IsPlain := by
  refine (expectText _ _ path).bind fun path _ => (expectText _ _ content).bind fun content _ => ?_
  intro host
  rw [get_bind]
  cases change host.files path content.toUTF8 with
  | ok files => exact ⟨rfl, fun _ _ ran => by cases ran; trivial⟩
  | error error => exact ⟨rfl, fun _ _ ran => by cases ran⟩

end Quiet

/-- No builtin that a machine starts with changes the heap or yields something from it. -/
theorem standard_quiet : ∀ builtin ∈ standard, ∀ arguments,
    Quiet (builtin.action arguments) Value.IsPlain := by
  intro builtin member arguments
  simp only [standard, List.mem_cons, List.not_mem_nil, or_false] at member
  rcases member with rfl | rfl | rfl | rfl | rfl | rfl
  · dsimp only [len]
    split
    · exact .pure trivial
    · exact .get fun _ => .pure trivial
    · exact .throw _
  · exact Quiet.pure trivial
  · exact fun _ => ⟨rfl, fun _ _ ran => by cases ran; trivial⟩
  · refine (Quiet.expectText _ _ _).bind fun path _ => .get fun host => ?_
    split
    · exact .pure trivial
    · exact .pure trivial
    · exact .throw _
  · exact .changeFile _ _ _ _
  · exact .changeFile _ _ _ _

end Builtin

/-- A plain value is within every region. -/
theorem Value.IsPlain.within {region : Heap.Object → Prop} {value : Value}
    (isPlain : value.IsPlain) : Heap.Within region value := by
  intro object found
  cases value with
  | array ref | map ref | function ref => exact isPlain.elim
  | _ => cases found

/-- A reference leads from its environment outward or to the globals. -/
theorem Heap.Confined.located {start heap : Heap} {region : Object → Prop}
    (confined : start.Confined region heap) {distances : Distances}
    {current globals ref : EnvironmentRef} {node : NodeId} {name : String}
    (here : region (.environment current)) (rooted : region (.environment globals))
    (found : distances.locator heap current globals node name = some ref) :
    region (.environment ref) := by
  unfold Distances.locator at found
  split at found
  · exact confined.ancestor here found
  · cases found
    exact rooted

/-- A run that starts inside a region stays inside of it. -/
def Regime.confined (start : Heap) (region : Heap.Object → Prop) (distances : Distances)
    (globals : EnvironmentRef) (library : Array Builtin) (rooted : region (.environment globals))
    (standard : ∀ builtin ∈ library, builtin ∈ Builtin.standard) : Regime where
  locator := distances.locator
  globals := globals
  library := library
  heap := start.Confined region
  value := Heap.Within region
  place ref := region (.environment ref)
  scope ref := region (.environment ref)
  place_of_scope _ inside := inside
  plain _ isPlain := isPlain.within
  read _ _ _ _ _ _ confined here found bound := confined.bound (confined.located here rooted found) bound
  assign _ _ _ name _ _ confined here found _ good :=
    confined.define name (confined.located here rooted found) good
  define _ _ name _ confined here good := confined.define name here good
  element _ _ confined good := confined.element (good _ rfl)
  entry _ _ confined good entry member := (confined.entry (good _ rfl) entry member).2
  home _ _ _ confined good found := confined.home (good _ rfl) found
  newArray _ _ confined good := confined.newArray good
  newMap _ _ confined good := confined.newMap good
  newFunction _ _ confined here := confined.newFunction here
  newEnvironment _ _ _ confined here good := confined.newEnvironment here good
  setElement _ _ position _ confined holder good := confined.setElement position (holder _ rfl) good
  insertEntry _ _ _ _ confined holder keyGood good :=
    confined.insertEntry (holder _ rfl) keyGood good
  perform builtin member arguments host confined _ := by
    have quiet := Builtin.standard_quiet builtin (standard builtin member) arguments host
    rw [quiet.1]
    exact ⟨confined, fun result after ran => (quiet.2 result after ran).within⟩

namespace Exec

/-- Whether an expression, a statement or a body ends normally or in an error, an object that was there
before and cannot be reached from the current environment or from the globals has the same content
afterwards. In particular the variables that a function has captured change only through what can reach
their scope. -/
theorem unreached_unchanged (fuel : Nat) (machine : Machine) (distances : Distances)
    (located : machine.locator = distances.locator)
    (standard : ∀ builtin ∈ machine.library, builtin ∈ Builtin.standard)
    (object : Heap.Object) (present : machine.heap.content? object ≠ none)
    (unreached : ¬machine.heap.Reaches [machine.environment, machine.globals] object) :
    (∀ expression, (finalState (evaluate fuel expression machine)).heap.content? object =
      machine.heap.content? object) ∧
    (∀ statement, (finalState (execute fuel statement machine)).heap.content? object =
      machine.heap.content? object) ∧
    ∀ body, (finalState (executeBody fuel body machine)).heap.content? object =
      machine.heap.content? object := by
  let region := machine.heap.Region [machine.environment, machine.globals]
  have confined : machine.heap.Confined region machine.heap := .ofRoots _ _
  have here : region (.environment machine.environment) := .inl (.root (by simp))
  have rooted : region (.environment machine.globals) := .inl (.root (by simp))
  let regime := Regime.confined machine.heap region distances machine.globals machine.library
    rooted standard
  have admits : regime.Admits machine.environment machine := ⟨confined, rfl, rfl, located, rfl⟩
  have out : ¬region object := fun inside => inside.elim unreached present
  refine ⟨fun expression => ?_, fun statement => ?_, fun body => ?_⟩
  · exact (regime.keeps_evaluate fuel expression here machine admits).admits.heap.outside object out
  · exact (regime.keeps_execute fuel statement here (fun _ => here) machine admits).admits.heap.outside
      object out
  · exact (regime.keeps_executeBody fuel body here machine admits).admits.heap.outside object out

/-- Storing an element changes an array that a global variable holds. It changes neither an array that no
variable holds nor the scope of a function that nothing refers to. -/
theorem unreached_unchanged_captured :
    let start := Machine.start ⟨[], [], true⟩ (.still 0) (.empty none)
    let name : Token := ⟨.identifier, "a", 1, none⟩
    let machine := start.mapHeap fun heap =>
      { heap with
        arrays := #[#[.nihl], #[.nihl]]
        functions := #[⟨name, [], [], ⟨1⟩⟩]
        environments := heap.environments.push ⟨[("x", .array ⟨1⟩)], some start.globals⟩ }.define
          start.globals "a" (.array ⟨0⟩)
    let store : Expression :=
      .setIndex (.variable 0 name) name (.constant (.number 0)) (.constant (.boolean true))
    let after := finalState (evaluate 3 store machine)
    (after.heap.array ⟨0⟩).map Value.isTrue = #[true] ∧
    ∀ object ∈ [Heap.Object.array ⟨1⟩, .environment ⟨1⟩],
      machine.heap.content? object ≠ none ∧
      ¬machine.heap.Reaches [machine.environment, machine.globals] object ∧
      after.heap.content? object = machine.heap.content? object := by
  intro start name machine store after
  have closed : ∀ object, machine.heap.Reaches [machine.environment, machine.globals] object →
      object ∈ [Heap.Object.environment ⟨0⟩, .array ⟨0⟩] := fun object =>
    Heap.Reaches.mem (by decide +kernel) (by decide +kernel)
  have library : machine.library = Builtin.standard.toArray := rfl
  have standard : ∀ builtin ∈ machine.library, builtin ∈ Builtin.standard := by
    simp [library]
  refine ⟨by decide +kernel, fun object member => ?_⟩
  have present : machine.heap.content? object ≠ none := by
    rcases List.mem_pair.mp member with rfl | rfl <;> exact Option.some_ne_none _
  have unreached : ¬machine.heap.Reaches [machine.environment, machine.globals] object := by
    intro reached
    have inside := closed object reached
    rcases List.mem_pair.mp member with rfl | rfl <;> simp at inside
  exact ⟨present, unreached,
    (unreached_unchanged 3 machine .empty rfl standard object present unreached).1 store⟩

end Exec

end OffsideScript
