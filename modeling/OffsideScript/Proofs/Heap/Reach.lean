import OffsideScript.Proofs.Scope.Environment
import OffsideScript.Proofs.Value.OrderedMap

namespace OffsideScript

namespace Heap

/-- What values, functions and environments refer to. -/
inductive Object where
  | array (ref : ArrayRef)
  | map (ref : MapRef)
  | function (ref : FunctionRef)
  | environment (ref : EnvironmentRef)
  deriving DecidableEq, Repr

/-- What an object of the heap consists of. -/
inductive Content where
  | array (elements : Array Value)
  | map (map : OrderedMap Value Value)
  | function (closure : Closure)
  | environment (environment : Environment)

end Heap

/-- The object that a value refers to. -/
def Value.object? : Value → Option Heap.Object
  | .array ref => some (.array ref)
  | .map ref => some (.map ref)
  | .function ref => some (.function ref)
  | _ => none

namespace Heap

/-- The elements of an array, the keys and values of a map, the environment of a function, and the values
and the parent of an environment. -/
def Content.objects : Content → List Object
  | .array elements => elements.toList.filterMap Value.object?
  | .map ordered => ordered.entries.toList.flatMap fun entry => [entry.1, entry.2].filterMap Value.object?
  | .function closure => [.environment closure.environment]
  | .environment scope =>
      scope.bindings.filterMap (·.2.object?) ++ scope.parent.toList.map .environment

/-- The content of an object, unless it is not yet in the heap. -/
def content? (heap : Heap) : Object → Option Content
  | .array ref => heap.arrays[ref.index]?.map .array
  | .map ref => heap.maps[ref.index]?.map .map
  | .function ref => (heap.closure? ref).map .function
  | .environment ref => heap.environments[ref.index]?.map .environment

/-- The objects that an object refers to. -/
def objects (heap : Heap) (object : Object) : List Object :=
  (heap.content? object).elim [] Content.objects

/-- An object can be come to from some environments by following references. -/
inductive Reaches (heap : Heap) (roots : List EnvironmentRef) : Object → Prop where
  | root {ref : EnvironmentRef} (member : ref ∈ roots) : Reaches heap roots (.environment ref)
  | step {object next : Object} (reached : Reaches heap roots object)
      (refers : next ∈ heap.objects object) : Reaches heap roots next

/-- Objects that are closed under reference hold all that can be reached from them. -/
theorem Reaches.mem {heap : Heap} {roots : List EnvironmentRef} {closed : List Object}
    (rooted : ∀ ref ∈ roots, .environment ref ∈ closed)
    (inside : ∀ object ∈ closed, ∀ next ∈ heap.objects object, next ∈ closed) {object : Object}
    (reached : heap.Reaches roots object) : object ∈ closed := by
  induction reached with
  | root member => exact rooted _ member
  | step _ refers ih => exact inside _ ih _ refers

/-- What can be reached from some environments, together with what is not yet in the heap. -/
def Region (heap : Heap) (roots : List EnvironmentRef) (object : Object) : Prop :=
  heap.Reaches roots object ∨ heap.content? object = none

section Changes

/-- What is read from a store after it has grown by one item. -/
theorem map_getElem?_push {α β : Type} (items : Array α) (item : α) (wrap : α → β) (index : Nat) :
    (items.push item)[index]?.map wrap =
      if index = items.size then some (wrap item) else items[index]?.map wrap := by
  rw [Array.getElem?_push]
  split <;> rfl

/-- What is read from a store after one of its items has changed. -/
theorem map_getElem?_modify {α β : Type} (items : Array α) (change : α → α) (wrap : α → β)
    (changed index : Nat) :
    (items.modify changed change)[index]?.map wrap =
      if index = changed then items[changed]?.map (wrap ∘ change) else items[index]?.map wrap := by
  rw [Array.getElem?_modify]
  by_cases same : changed = index
  · subst same
    rw [if_pos rfl, if_pos rfl, Option.map_map]
  · rw [if_neg same, if_neg (Ne.symm same)]

variable (heap : Heap)

/-- A new array is the one object whose content changes. -/
theorem content?_newArray (elements : Array Value) (object : Object) :
    (heap.newArray elements).2.content? object =
      if object = .array ⟨heap.arrays.size⟩ then some (.array elements)
      else heap.content? object := by
  cases object with
  | array ref =>
      rcases ref with ⟨index⟩
      simp only [content?, newArray, map_getElem?_push, Object.array.injEq, ArrayRef.mk.injEq]
  | _ => simp [content?, newArray, closure?]

/-- A new map is the one object whose content changes. -/
theorem content?_newMap (map : OrderedMap Value Value) (object : Object) :
    (heap.newMap map).2.content? object =
      if object = .map ⟨heap.maps.size⟩ then some (.map map) else heap.content? object := by
  cases object with
  | map ref =>
      rcases ref with ⟨index⟩
      simp only [content?, newMap, map_getElem?_push, Object.map.injEq, MapRef.mk.injEq]
  | _ => simp [content?, newMap, closure?]

/-- A new function is the one object whose content changes. -/
theorem content?_newFunction (closure : Closure) (object : Object) :
    (heap.newFunction closure).2.content? object =
      if object = .function ⟨heap.functions.size⟩ then some (.function closure)
      else heap.content? object := by
  cases object with
  | function ref =>
      rcases ref with ⟨index⟩
      simp only [content?, newFunction, closure?, map_getElem?_push, Object.function.injEq,
        FunctionRef.mk.injEq]
  | _ => simp [content?, newFunction]

/-- A new environment is the one object whose content changes. -/
theorem content?_newEnvironment (environment : Environment) (object : Object) :
    (heap.newEnvironment environment).2.content? object =
      if object = .environment ⟨heap.environments.size⟩ then some (.environment environment)
      else heap.content? object := by
  cases object with
  | environment ref =>
      rcases ref with ⟨index⟩
      simp only [content?, newEnvironment, map_getElem?_push, Object.environment.injEq,
        EnvironmentRef.mk.injEq]
  | _ => simp [content?, newEnvironment, closure?]

/-- A definition changes the bindings of one environment and nothing else. -/
theorem content?_define (ref : EnvironmentRef) (name : String) (value : Value) (object : Object) :
    (heap.define ref name value).content? object =
      if object = .environment ref then
        heap.environments[ref.index]?.map fun environment =>
          .environment { environment with bindings := environment.bindings.define name value }
      else heap.content? object := by
  cases object with
  | environment other =>
      rcases ref with ⟨index⟩
      rcases other with ⟨other⟩
      simp only [content?, define, map_getElem?_modify, Object.environment.injEq,
        EnvironmentRef.mk.injEq]
      rfl
  | _ => simp [content?, define, closure?]

/-- A new element changes one array and nothing else. -/
theorem content?_setElement (ref : ArrayRef) (position : Nat) (value : Value) (object : Object) :
    (heap.setElement ref position value).content? object =
      if object = .array ref then
        heap.arrays[ref.index]?.map fun elements =>
          .array (elements.setIfInBounds position value)
      else heap.content? object := by
  cases object with
  | array other =>
      rcases ref with ⟨index⟩
      rcases other with ⟨other⟩
      simp only [content?, setElement, map_getElem?_modify, Object.array.injEq, ArrayRef.mk.injEq]
      rfl
  | _ => simp [content?, setElement, closure?]

/-- A new entry changes one map and nothing else. -/
theorem content?_insertEntry (ref : MapRef) (key value : Value) (object : Object) :
    (heap.insertEntry ref key value).content? object =
      if object = .map ref then heap.maps[ref.index]?.map fun map => .map (map.insert key value)
      else heap.content? object := by
  cases object with
  | map other =>
      rcases ref with ⟨index⟩
      rcases other with ⟨other⟩
      simp only [content?, insertEntry, map_getElem?_modify, Object.map.injEq, MapRef.mk.injEq]
      rfl
  | _ => simp [content?, insertEntry, closure?]

end Changes

section Regions

variable {region : Object → Prop}

/-- A value that refers to nothing outside of a region. -/
def Within (region : Object → Prop) (value : Value) : Prop :=
  ∀ object, value.object? = some object → region object

/-- A content that does not lead out of a region. -/
def Content.Inside (region : Object → Prop) (content : Content) : Prop :=
  ∀ next ∈ content.objects, region next

/-- An array stays inside if its elements do. -/
theorem Content.inside_array {elements : Array Value} :
    (Content.array elements).Inside region ↔ ∀ item ∈ elements, Within region item := by
  simp only [Inside, objects, List.mem_filterMap, Array.mem_toList_iff]
  constructor
  · intro inside item member object found
    exact inside object ⟨item, member, found⟩
  · rintro good object ⟨item, member, found⟩
    exact good item member object found

/-- A map stays inside if its keys and values do. -/
theorem Content.inside_map {map : OrderedMap Value Value} :
    (Content.map map).Inside region ↔
      ∀ entry ∈ map.entries, Within region entry.1 ∧ Within region entry.2 := by
  simp only [Inside, objects, List.mem_flatMap, List.mem_filterMap, Array.mem_toList_iff]
  constructor
  · intro inside entry member
    exact ⟨fun object found => inside object ⟨entry, member, entry.1, by simp, found⟩,
      fun object found => inside object ⟨entry, member, entry.2, by simp, found⟩⟩
  · rintro good object ⟨entry, member, item, either, found⟩
    rcases List.mem_pair.mp either with rfl | rfl
    · exact (good entry member).1 object found
    · exact (good entry member).2 object found

/-- A function stays inside if its environment does. -/
theorem Content.inside_function {closure : Closure} :
    (Content.function closure).Inside region ↔ region (.environment closure.environment) := by
  simp [Inside, objects]

/-- An environment stays inside if its values and its parent do. -/
theorem Content.inside_environment {environment : Environment} :
    (Content.environment environment).Inside region ↔
      (∀ binding ∈ environment.bindings, Within region binding.2) ∧
        ∀ parent, environment.parent = some parent → region (.environment parent) := by
  simp only [Inside, objects, List.mem_append, List.mem_filterMap, List.mem_map,
    Option.mem_toList]
  constructor
  · intro inside
    exact ⟨fun binding member object found => inside object (.inl ⟨binding, member, found⟩),
      fun parent found => inside _ (.inr ⟨parent, found, rfl⟩)⟩
  · rintro ⟨values, enclosing⟩ object (⟨binding, member, found⟩ | ⟨parent, found, rfl⟩)
    · exact values binding member object found
    · exact enclosing parent found

end Regions

/-- Nothing in a region leads out of it, what is outside of it is as it was at the start, and what is not
yet in the heap counts as inside. -/
structure Confined (start : Heap) (region : Object → Prop) (heap : Heap) : Prop where
  closed : ∀ object, region object → ∀ next ∈ heap.objects object, region next
  outside : ∀ object, ¬region object → heap.content? object = start.content? object
  fresh : ∀ object, heap.content? object = none → region object

namespace Confined

variable {start heap after : Heap} {region : Object → Prop}

/-- A heap is confined to what can be reached in it. -/
theorem ofRoots (heap : Heap) (roots : List EnvironmentRef) :
    heap.Confined (heap.Region roots) heap := by
  refine ⟨fun object inside next refers => ?_, fun _ _ => rfl, fun _ none => .inr none⟩
  rcases inside with reached | none
  · exact .inl (reached.step refers)
  · rw [objects, none] at refers
    cases refers

variable (confined : start.Confined region heap)
include confined

/-- What is in the region leads to nothing outside of it. -/
theorem inside {object : Object} {content : Content} (member : region object)
    (found : heap.content? object = some content) : content.Inside region := by
  intro next refers
  apply confined.closed object member next
  rw [objects, found]
  exact refers

/-- One object inside a region may get a new content that does not lead out of it. -/
theorem put {changed : Object} {new : Option Content} (member : region changed)
    (contents : ∀ object, after.content? object =
      if object = changed then new else heap.content? object)
    (good : ∀ content, new = some content → content.Inside region) :
    start.Confined region after := by
  constructor
  · intro object inside next refers
    rw [objects, contents] at refers
    split at refers
    · cases found : new with
      | none =>
          rw [found] at refers
          cases refers
      | some content =>
          rw [found] at refers
          exact good content found next refers
    · exact confined.closed object inside next refers
  · intro object out
    have apart : object ≠ changed := by
      rintro rfl
      exact out member
    rw [contents, if_neg apart]
    exact confined.outside object out
  · intro object none
    rw [contents] at none
    split at none
    · rename_i same
      exact same ▸ member
    · exact confined.fresh object none

/-- A new array of values within the region is within it. -/
theorem newArray {elements : Array Value} (good : ∀ item ∈ elements, Within region item) :
    start.Confined region (heap.newArray elements).2 ∧
      Within region (heap.newArray elements).1 := by
  have member : region (.array ⟨heap.arrays.size⟩) := confined.fresh _ (by simp [content?])
  constructor
  · apply confined.put member (heap.content?_newArray elements)
    rintro content ⟨⟩
    exact Content.inside_array.mpr good
  · rintro object ⟨⟩
    exact member

/-- A new map of values within the region is within it. -/
theorem newMap {map : OrderedMap Value Value}
    (good : ∀ entry ∈ map.entries, Within region entry.1 ∧ Within region entry.2) :
    start.Confined region (heap.newMap map).2 ∧ Within region (heap.newMap map).1 := by
  have member : region (.map ⟨heap.maps.size⟩) := confined.fresh _ (by simp [content?])
  constructor
  · apply confined.put member (heap.content?_newMap map)
    rintro content ⟨⟩
    exact Content.inside_map.mpr good
  · rintro object ⟨⟩
    exact member

/-- A new function in an environment of the region is within it. -/
theorem newFunction {closure : Closure} (home : region (.environment closure.environment)) :
    start.Confined region (heap.newFunction closure).2 ∧
      Within region (heap.newFunction closure).1 := by
  have member : region (.function ⟨heap.functions.size⟩) :=
    confined.fresh _ (by simp [content?, closure?])
  constructor
  · apply confined.put member (heap.content?_newFunction closure)
    rintro content ⟨⟩
    exact Content.inside_function.mpr home
  · rintro object ⟨⟩
    exact member

/-- A new environment below one of the region, with values within it, is in the region. -/
theorem newEnvironment {bindings : Bindings} {parent : EnvironmentRef}
    (enclosing : region (.environment parent))
    (good : ∀ binding ∈ bindings, Within region binding.2) :
    start.Confined region (heap.newEnvironment ⟨bindings, some parent⟩).2 ∧
      region (.environment (heap.newEnvironment ⟨bindings, some parent⟩).1) := by
  have member : region (.environment ⟨heap.environments.size⟩) :=
    confined.fresh _ (by simp [content?])
  refine ⟨?_, member⟩
  apply confined.put member (heap.content?_newEnvironment ⟨bindings, some parent⟩)
  rintro content ⟨⟩
  refine Content.inside_environment.mpr ⟨good, ?_⟩
  rintro outer ⟨⟩
  exact enclosing

/-- Names can be defined in the region to values within it. -/
theorem define {ref : EnvironmentRef} (name : String) {value : Value}
    (member : region (.environment ref)) (good : Within region value) :
    start.Confined region (heap.define ref name value) := by
  apply confined.put member (heap.content?_define ref name value)
  intro content changed
  obtain ⟨old, found, rfl⟩ := Option.map_eq_some_iff.mp changed
  have before := Content.inside_environment.mp
    (confined.inside member (congrArg (Option.map Content.environment) found))
  refine Content.inside_environment.mpr ⟨fun binding bound => ?_, before.2⟩
  rcases Bindings.mem_define bound with kept | rfl
  · exact before.1 binding kept
  · exact good

/-- Elements can be set in the region to values within it. -/
theorem setElement {ref : ArrayRef} (position : Nat) {value : Value}
    (member : region (.array ref)) (good : Within region value) :
    start.Confined region (heap.setElement ref position value) := by
  apply confined.put member (heap.content?_setElement ref position value)
  intro content changed
  obtain ⟨old, found, rfl⟩ := Option.map_eq_some_iff.mp changed
  have before := Content.inside_array.mp
    (confined.inside member (congrArg (Option.map Content.array) found))
  refine Content.inside_array.mpr fun item contained => ?_
  rcases Array.mem_or_eq_of_mem_setIfInBounds contained with kept | rfl
  · exact before item kept
  · exact good

/-- Entries can be put into the maps of the region. -/
theorem insertEntry {ref : MapRef} {key value : Value} (member : region (.map ref))
    (keyGood : Within region key) (good : Within region value) :
    start.Confined region (heap.insertEntry ref key value) := by
  apply confined.put member (heap.content?_insertEntry ref key value)
  intro content changed
  obtain ⟨old, found, rfl⟩ := Option.map_eq_some_iff.mp changed
  have before := Content.inside_map.mp
    (confined.inside member (congrArg (Option.map Content.map) found))
  refine Content.inside_map.mpr fun entry contained => ?_
  rcases OrderedMap.mem_entries_insert contained with kept | ⟨rfl, rfl | ⟨other, kept, same⟩⟩
  · exact before entry kept
  · exact ⟨keyGood, good⟩
  · exact ⟨same ▸ (before other kept).1, good⟩

/-- The elements of an array in the region are within it. -/
theorem element {ref : ArrayRef} (member : region (.array ref)) :
    ∀ item ∈ heap.array ref, Within region item := by
  unfold Heap.array
  rw [Array.getD_eq_getD_getElem?]
  cases found : heap.arrays[ref.index]? with
  | none => simp
  | some elements =>
      exact Content.inside_array.mp
        (confined.inside member (congrArg (Option.map Content.array) found))

/-- The keys and values of a map in the region are within it. -/
theorem entry {ref : MapRef} (member : region (.map ref)) :
    ∀ entry ∈ (heap.map ref).entries, Within region entry.1 ∧ Within region entry.2 := by
  unfold Heap.map
  rw [Array.getD_eq_getD_getElem?]
  cases found : heap.maps[ref.index]? with
  | none => simp [OrderedMap.empty]
  | some map =>
      exact Content.inside_map.mp
        (confined.inside member (congrArg (Option.map Content.map) found))

/-- A function of the region was made in an environment of the region. -/
theorem home {ref : FunctionRef} {closure : Closure} (member : region (.function ref))
    (found : heap.closure? ref = some closure) : region (.environment closure.environment) :=
  Content.inside_function.mp
    (confined.inside member (congrArg (Option.map Content.function) found))

/-- The value of a name in the region is within it. -/
theorem bound {ref : EnvironmentRef} {name : String} {value : Value}
    (member : region (.environment ref)) (found : heap.get? ref name = some value) :
    Within region value := by
  obtain ⟨environment, present, named⟩ := Option.bind_eq_some_iff.mp found
  obtain ⟨before, later, split, _⟩ := List.lookup_eq_some_iff.mp named
  have inside := Content.inside_environment.mp
    (confined.inside member (congrArg (Option.map Content.environment) present))
  exact inside.1 (name, value) (by simp [split])

/-- Everything further out is inside too. -/
theorem ancestor {ref outer : EnvironmentRef} {distance : Nat}
    (member : region (.environment ref)) (found : heap.ancestor? ref distance = some outer) :
    region (.environment outer) := by
  induction distance generalizing ref with
  | zero =>
      cases found
      exact member
  | succ distance ih =>
      obtain ⟨parent, enclosed, further⟩ := Option.bind_eq_some_iff.mp found
      obtain ⟨environment, present, next⟩ := Option.bind_eq_some_iff.mp enclosed
      have inside := Content.inside_environment.mp
        (confined.inside member (congrArg (Option.map Content.environment) present))
      exact ih (inside.2 parent next) further

end Confined

end Heap

end OffsideScript
