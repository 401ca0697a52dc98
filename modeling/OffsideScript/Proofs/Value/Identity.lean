import OffsideScript.Proofs.Value.OrderedMap
import Mathlib.Logic.Relation

namespace OffsideScript

namespace Value

/-- The values that are NaN. -/
def IsNaN : Value → Prop
  | number value => Number.isNaN value = true
  | _ => False

/-- As keys, values are the same if they are equal or if both are NaN. -/
theorem keyEquals_iff_equals (left right : Value) :
    left.keyEquals right = true ↔ left.equals right = true ∨ left.IsNaN ∧ right.IsNaN := by
  cases left <;> cases right <;> simp [keyEquals, equals, IsNaN, or_comm]

/-- Being the same key is an equivalence. -/
theorem keyEquals_equivalence : Equivalence fun left right : Value => left.keyEquals right = true where
  refl := LawfulMapKey.same_refl
  symm {left right} := LawfulMapKey.same_symm left right
  trans {first second third} := LawfulMapKey.same_trans first second third

end Value

namespace OrderedMap

variable {κ ν : Type} [MapKey κ]

/-- A map that still has all keys of another one at their places, and is indexed if that one is. -/
structure Extends (earlier later : OrderedMap κ ν) : Prop where
  keys : earlier.keys <+: later.keys
  indexed : earlier.Indexed → later.Indexed

theorem Extends.refl (map : OrderedMap κ ν) : map.Extends map :=
  ⟨List.prefix_refl _, id⟩

theorem Extends.trans {first second third : OrderedMap κ ν} (left : first.Extends second)
    (right : second.Extends third) : first.Extends third :=
  ⟨left.keys.trans right.keys, right.indexed ∘ left.indexed⟩

variable [LawfulMapKey κ]

/-- A map with one more entry extends it. -/
theorem extends_insert (map : OrderedMap κ ν) (key : κ) (value : ν) :
    map.Extends (map.insert key value) := by
  refine ⟨?_, fun indexed => indexed.insert key value⟩
  cases found : map.position? key with
  | none =>
      rewrite [keys_insert_of_none value found]
      exact List.prefix_append _ _
  | some position =>
      rewrite [keys_insert_of_some value found]
      exact List.prefix_refl _

omit [LawfulMapKey κ] in
/-- A key is at a position if the key there is the same. -/
theorem hasAt_iff_keys (map : OrderedMap κ ν) (key : κ) (position : Nat) :
    map.HasAt key position ↔
      ∃ present, map.keys[position]? = some present ∧ MapKey.same present key = true := by
  simp [HasAt, keys]

/-- A key is found where it is. -/
theorem position?_eq_some_iff {map : OrderedMap κ ν} (indexed : map.Indexed) (key : κ)
    (position : Nat) : map.position? key = some position ↔ map.HasAt key position := by
  constructor
  · exact hasAt_of_position?
  · intro here
    obtain ⟨other, found⟩ := Option.ne_none_iff_exists'.mp here.association
    rw [position?_eq indexed, found, indexed.position_unique here (hasAt_of_association found)]

/-- Among the entries of a map a key is found where it was found, and not where it was not. -/
theorem Extends.position?_iff {earlier later : OrderedMap κ ν} (extension : earlier.Extends later)
    (indexed : earlier.Indexed) {position : Nat} (inside : position < earlier.size) (key : κ) :
    later.position? key = some position ↔ earlier.position? key = some position := by
  have same : later.keys[position]? = earlier.keys[position]? := by
    obtain ⟨added, more⟩ := extension.keys
    have counted : earlier.keys.length = earlier.size := by
      simp [OrderedMap.keys, size]
    rw [← more, List.getElem?_append_left (counted ▸ inside)]
  rw [position?_eq_some_iff indexed, position?_eq_some_iff (extension.indexed indexed),
    hasAt_iff_keys, hasAt_iff_keys, same]

end OrderedMap

namespace Heap

/-- One change of a heap. An object comes into being, or the content of an object changes. -/
inductive Change : Heap → Heap → Prop where
  | newArray (heap : Heap) (elements : Array Value) : Change heap (heap.newArray elements).2
  | newMap (heap : Heap) (map : OrderedMap Value Value) (indexed : map.Indexed) :
      Change heap (heap.newMap map).2
  | newFunction (heap : Heap) (closure : Closure) : Change heap (heap.newFunction closure).2
  | newEnvironment (heap : Heap) (environment : Environment) :
      Change heap (heap.newEnvironment environment).2
  | setElement (heap : Heap) (ref : ArrayRef) (position : Nat) (value : Value) :
      Change heap (heap.setElement ref position value)
  | pushElement (heap : Heap) (ref : ArrayRef) (value : Value) :
      Change heap (heap.pushElement ref value)
  | insertEntry (heap : Heap) (ref : MapRef) (key value : Value) :
      Change heap (heap.insertEntry ref key value)
  | define (heap : Heap) (ref : EnvironmentRef) (name : String) (value : Value) :
      Change heap (heap.define ref name value)

/-- Any number of changes. -/
def Changes : Heap → Heap → Prop :=
  Relation.ReflTransGen Change

/-- All maps of a heap are indexed. -/
def IsIndexed (heap : Heap) : Prop :=
  ∀ ref, (heap.map ref).Indexed

variable {before after : Heap}

/-- A new map is in its place, and the others are in theirs. -/
theorem map_newMap (heap : Heap) (map : OrderedMap Value Value) (ref : MapRef) :
    (heap.newMap map).2.map ref = if ref.index = heap.maps.size then map else heap.map ref := by
  simp only [newMap, Heap.map, Array.getD_eq_getD_getElem?, Array.getElem?_push]
  split <;> rfl

/-- An entry changes one map by an insertion, and no other. -/
theorem map_insertEntry (heap : Heap) (changed : MapRef) (key value : Value) (ref : MapRef) :
    (heap.insertEntry changed key value).map ref = heap.map ref ∨
      (heap.insertEntry changed key value).map ref = (heap.map ref).insert key value := by
  simp only [insertEntry, Heap.map, Array.getD_eq_getD_getElem?, Array.getElem?_modify]
  split
  · cases heap.maps[ref.index]? with
    | none => exact .inl rfl
    | some map => exact .inr rfl
  · exact .inl rfl

/-- A change extends every map of the heap. -/
theorem Change.map_extends (change : before.Change after) {ref : MapRef}
    (alive : ref.index < before.maps.size) :
    ref.index < after.maps.size ∧ (before.map ref).Extends (after.map ref) := by
  cases change with
  | newMap map =>
      rw [map_newMap, if_neg (by omega)]
      refine ⟨?_, .refl _⟩
      rw [Heap.newMap, Array.size_push]
      omega
  | insertEntry changed key value =>
      refine ⟨by rwa [Heap.insertEntry, Array.size_modify], ?_⟩
      rcases before.map_insertEntry changed key value ref with same | inserted
      · rw [same]
        exact .refl _
      · rw [inserted]
        exact OrderedMap.extends_insert _ _ _
  | _ => exact ⟨alive, .refl _⟩

/-- A change leaves all maps indexed. -/
theorem Change.isIndexed (change : before.Change after) (indexed : before.IsIndexed) :
    after.IsIndexed := by
  intro ref
  cases change with
  | newMap map new =>
      rw [map_newMap]
      split
      · exact new
      · exact indexed ref
  | insertEntry changed key value =>
      rcases before.map_insertEntry changed key value ref with same | inserted
      · rw [same]
        exact indexed ref
      · rw [inserted]
        exact (indexed ref).insert key value
  | _ => exact indexed ref

/-- The empty heap has no map that is not indexed. -/
theorem isIndexed_empty : Heap.empty.IsIndexed :=
  fun _ => OrderedMap.indexed_empty

/-- Changes leave all maps indexed. -/
theorem Changes.isIndexed (changes : before.Changes after) (indexed : before.IsIndexed) :
    after.IsIndexed := by
  induction changes with
  | refl => exact indexed
  | tail _ change ih => exact change.isIndexed ih

/-- Changes extend every map of the heap. -/
theorem Changes.map_extends (changes : before.Changes after) {ref : MapRef}
    (alive : ref.index < before.maps.size) :
    ref.index < after.maps.size ∧ (before.map ref).Extends (after.map ref) := by
  induction changes with
  | refl => exact ⟨alive, .refl _⟩
  | tail _ change ih =>
      obtain ⟨still, extended⟩ := ih
      obtain ⟨later, further⟩ := change.map_extends still
      exact ⟨later, extended.trans further⟩

/-- A key is found at a place of a map that is already taken if and only if it was found there, whatever has
become of the arrays, maps, functions and environments that the keys refer to. -/
theorem Changes.position?_iff (changes : before.Changes after) (indexed : before.IsIndexed)
    (ref : MapRef) {position : Nat} (inside : position < (before.map ref).size) (key : Value) :
    (after.map ref).position? key = some position ↔ (before.map ref).position? key = some position := by
  have alive : ref.index < before.maps.size := by
    by_contra missing
    have empty : before.map ref = .empty := by
      simp [Heap.map, Array.getElem?_eq_none (Nat.le_of_not_lt missing)]
    simp [empty, OrderedMap.size, OrderedMap.empty] at inside
  exact (changes.map_extends alive).2.position?_iff (indexed ref) inside key

end Heap

namespace Value

/-- Being the same key is an equivalence. It is being equal, except that a NaN is the same key as any NaN. Numbers
are equal if their doubles are: those with the same bits, and both zeros, but no NaN; they are the same key if
they have the same bits, are both zero or are both NaN. Values are the same key exactly if what is hashed of them is
the same, and then so is the hash. No change of a heap changes what is found in its maps among the entries that
are there. -/
theorem keyEquals_lawful :
    (Equivalence fun left right : Value => left.keyEquals right = true) ∧
    (∀ left right : Value,
      left.keyEquals right = true ↔ left.equals right = true ∨ left.IsNaN ∧ right.IsNaN) ∧
    (∀ bits : UInt64, (number ⟨bits⟩).IsNaN ↔ Number.IsNaNPattern bits) ∧
    (∀ left right : UInt64,
      ((number ⟨left⟩).equals (number ⟨right⟩) = (Float.ofBits left == Float.ofBits right)) ∧
      ((number ⟨left⟩).equals (number ⟨right⟩) = true ↔
        ¬Number.IsNaNPattern left ∧ ¬Number.IsNaNPattern right ∧
          (left = right ∨ Number.IsZeroPattern left ∧ Number.IsZeroPattern right)) ∧
      ((number ⟨left⟩).keyEquals (number ⟨right⟩) = true ↔
        left = right ∨ Number.IsNaNPattern left ∧ Number.IsNaNPattern right ∨
          Number.IsZeroPattern left ∧ Number.IsZeroPattern right)) ∧
    (∀ left right : Value, left.keyEquals right = true ↔ left.key = right.key) ∧
    (∀ left right : Value, left.keyEquals right = true → MapKey.hash left = MapKey.hash right) ∧
    ∀ before after : Heap, Heap.empty.Changes before → before.Changes after →
      ∀ ref key position, position < (before.map ref).size →
        ((after.map ref).position? key = some position ↔
          (before.map ref).position? key = some position) := by
  refine ⟨keyEquals_equivalence, keyEquals_iff_equals, fun bits => Number.isNaN_iff ⟨bits⟩, ?_,
    keyEquals_iff, LawfulMapKey.hash_eq, ?_⟩
  · intro left right
    exact ⟨Number.same_eq_beq ⟨left⟩ ⟨right⟩, Number.same_iff ⟨left⟩ ⟨right⟩,
      keyEquals_number ⟨left⟩ ⟨right⟩⟩
  · intro before after built changes ref key position inside
    exact changes.position?_iff (built.isIndexed Heap.isIndexed_empty) ref inside key

end Value

end OffsideScript
