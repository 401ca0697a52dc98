import OffsideScript.Proofs.Value.Key
import Mathlib.Data.List.Basic

namespace OffsideScript

variable {κ ν : Type}

namespace OrderedMap

/-- The keys of a map in the order of their insertion. -/
def keys (map : OrderedMap κ ν) : List κ :=
  map.entries.toList.map Prod.fst

/-- The positions of the entries whose keys have a hash. -/
def bucket (map : OrderedMap κ ν) (hash : UInt64) : List Nat :=
  map.buckets.getD hash []

end OrderedMap

variable [MapKey κ]

namespace Association

/-- A key that is already there keeps its place and its first form. Any other goes to the end. -/
def insert (key : κ) (value : ν) : List (κ × ν) → List (κ × ν)
  | [] => [(key, value)]
  | entry :: rest =>
      if MapKey.same entry.1 key then (entry.1, value) :: rest else entry :: insert key value rest

/-- Pairs are inserted one after another. -/
def insertAll (entries pairs : List (κ × ν)) : List (κ × ν) :=
  pairs.foldl (fun entries pair => insert pair.1 pair.2 entries) entries

/-- The value of a key. -/
def get? (entries : List (κ × ν)) (key : κ) : Option ν :=
  (entries.find? fun entry => MapKey.same entry.1 key).map Prod.snd

/-- The place of a key among the entries. -/
def position? (entries : List (κ × ν)) (key : κ) : Option Nat :=
  entries.findIdx? fun entry => MapKey.same entry.1 key

/-- A key that is not there goes to the end. -/
theorem insert_of_none {entries : List (κ × ν)} {key : κ} (value : ν)
    (absent : position? entries key = none) :
    insert key value entries = entries ++ [(key, value)] := by
  induction entries with
  | nil => rfl
  | cons entry rest ih =>
      simp only [position?, List.findIdx?_cons] at absent
      split at absent
      · cases absent
      · rename_i other
        rw [insert, if_neg other, ih (Option.map_eq_none_iff.mp absent)]
        rfl

/-- A key that is there gets a new value. -/
theorem insert_of_some {entries : List (κ × ν)} {key : κ} {position : Nat} (value : ν)
    (present : position? entries key = some position) :
    insert key value entries = entries.modify position fun entry => (entry.1, value) := by
  induction entries generalizing position with
  | nil => cases present
  | cons entry rest ih =>
      simp only [position?, List.findIdx?_cons] at present
      split at present
      · rename_i found
        cases present
        rw [insert, if_pos found]
        rfl
      · rename_i other
        obtain ⟨before, inside, rfl⟩ := Option.map_eq_some_iff.mp present
        rw [insert, if_neg other, ih inside]
        rfl

/-- The value of a key is at its position. -/
theorem get?_eq (entries : List (κ × ν)) (key : κ) :
    get? entries key =
      (position? entries key).bind fun position => entries[position]?.map Prod.snd := by
  induction entries with
  | nil => rfl
  | cons entry rest ih =>
      simp only [get?, position?, List.find?_cons, List.findIdx?_cons] at ih ⊢
      cases MapKey.same entry.1 key with
      | true => rfl
      | false =>
          simp only [ih, Bool.false_eq_true, if_false]
          cases rest.findIdx? fun entry => MapKey.same entry.1 key <;> rfl

end Association

namespace OrderedMap

/-- Pairs are inserted one after another. -/
def insertAll (map : OrderedMap κ ν) (pairs : List (κ × ν)) : OrderedMap κ ν :=
  pairs.foldl (fun map pair => map.insert pair.1 pair.2) map

/-- The entry at a position has a given key, up to sameness. -/
def HasAt (map : OrderedMap κ ν) (key : κ) (position : Nat) : Prop :=
  ∃ entry, map.entries[position]? = some entry ∧ MapKey.same entry.1 key = true

/-- A key is at a position if the entry there has it. -/
theorem hasAt_iff (map : OrderedMap κ ν) (key : κ) (position : Nat) :
    map.HasAt key position ↔
      (map.entries[position]?.any fun entry => MapKey.same entry.1 key) = true := by
  unfold HasAt
  cases map.entries[position]? with
  | none => simp
  | some entry => simp

/-- A key is where it is found. -/
theorem hasAt_of_position? {map : OrderedMap κ ν} {key : κ} {position : Nat}
    (found : map.position? key = some position) : map.HasAt key position := by
  have matched := List.find?_some found
  exact (map.hasAt_iff key position).mpr matched

/-- A key is where a search through the entries finds it. -/
theorem hasAt_of_association {map : OrderedMap κ ν} {key : κ} {position : Nat}
    (found : Association.position? map.entries.toList key = some position) :
    map.HasAt key position := by
  obtain ⟨inside, same, _⟩ := List.findIdx?_eq_some_iff_getElem.mp found
  exact ⟨_, Array.getElem?_eq_getElem (by simpa using inside), by simpa using same⟩

/-- A key that is somewhere is found by a search through all entries. -/
theorem HasAt.association {map : OrderedMap κ ν} {key : κ} {position : Nat}
    (here : map.HasAt key position) :
    Association.position? map.entries.toList key ≠ none := by
  obtain ⟨entry, found, same⟩ := here
  intro absent
  have member : entry ∈ map.entries.toList := by
    simpa using Array.mem_of_getElem? found
  have other := List.findIdx?_eq_none_iff.mp absent entry member
  rw [same] at other
  cases other

/-- The buckets are an index of the entries. -/
structure Indexed (map : OrderedMap κ ν) : Prop where
  /-- Each position is listed once under the hash of its key, and not under any other. -/
  listed : ∀ hash position, (map.bucket hash).count position =
    if map.keys[position]?.map MapKey.hash = some hash then 1 else 0
  distinct : map.keys.Pairwise fun left right => MapKey.same left right = false
  inside : ∀ hash, ∀ position ∈ map.bucket hash, position < map.entries.size

/-- What is listed is inside. -/
theorem Indexed.of_listed {map : OrderedMap κ ν}
    (listed : ∀ hash position, (map.bucket hash).count position =
      if map.keys[position]?.map MapKey.hash = some hash then 1 else 0)
    (distinct : map.keys.Pairwise fun left right => MapKey.same left right = false) :
    map.Indexed := by
  refine ⟨listed, distinct, fun hash position member => ?_⟩
  have counted := listed hash position
  by_contra outside
  have absent : map.keys[position]? = none := by
    simp [keys, Nat.le_of_not_lt outside]
  rw [absent] at counted
  exact List.count_eq_zero.mp counted member

/-- The position of a key is in the bucket of its hash. -/
theorem Indexed.mem_bucket [LawfulMapKey κ] {map : OrderedMap κ ν} (indexed : map.Indexed)
    {key : κ} {position : Nat} (here : map.HasAt key position) :
    position ∈ map.bucket (MapKey.hash key) := by
  obtain ⟨entry, found, same⟩ := here
  have counted := indexed.listed (MapKey.hash key) position
  have hashed : map.keys[position]?.map MapKey.hash = some (MapKey.hash key) := by
    simp [keys, found, LawfulMapKey.hash_eq _ _ same]
  rw [if_pos hashed] at counted
  exact List.count_pos_iff.mp (by omega)

/-- Two entries have different keys. -/
theorem Indexed.apart {map : OrderedMap κ ν} (indexed : map.Indexed) {first second : Nat}
    {left right : κ × ν} (earlier : first < second) (leftFound : map.entries[first]? = some left)
    (rightFound : map.entries[second]? = some right) : MapKey.same left.1 right.1 = false := by
  obtain ⟨leftInside, rfl⟩ := Array.getElem?_eq_some_iff.mp leftFound
  obtain ⟨rightInside, rfl⟩ := Array.getElem?_eq_some_iff.mp rightFound
  have pairwise := List.pairwise_iff_getElem.mp indexed.distinct first second
    (by simpa [keys] using leftInside) (by simpa [keys] using rightInside) earlier
  simpa [keys] using pairwise

/-- At most one key is the same as a given one. -/
theorem Indexed.position_unique [LawfulMapKey κ] {map : OrderedMap κ ν} (indexed : map.Indexed)
    {key : κ} {first second : Nat} (left : map.HasAt key first) (right : map.HasAt key second) :
    first = second := by
  have before {first second : Nat} (left : map.HasAt key first) (right : map.HasAt key second) :
      ¬first < second := by
    intro earlier
    obtain ⟨leftEntry, leftFound, leftSame⟩ := left
    obtain ⟨rightEntry, rightFound, rightSame⟩ := right
    have same := LawfulMapKey.same_trans _ _ _ leftSame (LawfulMapKey.same_symm _ _ rightSame)
    rw [indexed.apart earlier leftFound rightFound] at same
    cases same
  have notLess := before left right
  have notGreater := before right left
  omega

/-- The buckets lead to the entry that a search through all entries finds. -/
theorem position?_eq [LawfulMapKey κ] {map : OrderedMap κ ν} (indexed : map.Indexed) (key : κ) :
    map.position? key = Association.position? map.entries.toList key := by
  cases sought : map.position? key with
  | none =>
      cases found : Association.position? map.entries.toList key with
      | none => rfl
      | some position =>
          have here := hasAt_of_association found
          have missed := List.find?_eq_none.mp sought position (indexed.mem_bucket here)
          exact absurd ((map.hasAt_iff key position).mp here) missed
  | some position =>
      have here := hasAt_of_position? sought
      obtain ⟨other, found⟩ := Option.ne_none_iff_exists'.mp here.association
      rw [found, indexed.position_unique here (hasAt_of_association found)]

/-- A map gives the values that a search through its entries gives. -/
theorem get?_eq [LawfulMapKey κ] {map : OrderedMap κ ν} (indexed : map.Indexed) (key : κ) :
    map.get? key = Association.get? map.entries.toList key := by
  rw [get?, position?_eq indexed, Association.get?_eq]
  simp only [Array.getElem?_toList]

/-- A key that is found gets a new value at its position. -/
theorem insert_of_some {map : OrderedMap κ ν} {key : κ} {position : Nat} (value : ν)
    (found : map.position? key = some position) :
    map.insert key value =
      { map with entries := map.entries.modify position fun entry => (entry.1, value) } := by
  rw [insert, found]

/-- A key that is not found gets a new entry and a place in its bucket. -/
theorem insert_of_none {map : OrderedMap κ ν} {key : κ} (value : ν)
    (absent : map.position? key = none) :
    map.insert key value =
      { entries := map.entries.push (key, value)
        buckets := map.buckets.insert (MapKey.hash key)
          (map.bucket (MapKey.hash key) ++ [map.entries.size]) } := by
  rw [insert, absent]
  rfl

/-- A value that is found is in an entry. -/
theorem mem_of_get? {map : OrderedMap κ ν} {key : κ} {value : ν}
    (found : map.get? key = some value) : ∃ entry ∈ map.entries, entry.2 = value := by
  obtain ⟨position, _, inside⟩ := Option.bind_eq_some_iff.mp found
  obtain ⟨entry, present, rfl⟩ := Option.map_eq_some_iff.mp inside
  exact ⟨entry, Array.mem_of_getElem? present, rfl⟩

/-- What is in a map was there before or comes from the new key and the new value. -/
theorem mem_entries_insert {map : OrderedMap κ ν} {key : κ} {value : ν} {entry : κ × ν}
    (member : entry ∈ (map.insert key value).entries) :
    entry ∈ map.entries ∨
      entry.2 = value ∧ (entry.1 = key ∨ ∃ old ∈ map.entries, old.1 = entry.1) := by
  cases found : map.position? key with
  | none =>
      rw [insert_of_none value found, Array.mem_push] at member
      rcases member with old | rfl
      · exact .inl old
      · exact .inr ⟨rfl, .inl rfl⟩
  | some position =>
      rw [insert_of_some value found, Array.mem_iff_getElem?] at member
      obtain ⟨index, present⟩ := member
      rw [Array.getElem?_modify] at present
      split at present
      · obtain ⟨old, inside, rfl⟩ := Option.map_eq_some_iff.mp present
        exact .inr ⟨rfl, .inr ⟨old, Array.mem_of_getElem? inside, rfl⟩⟩
      · exact .inl (Array.mem_of_getElem? present)

/-- Inserting into a map is inserting into the list of its entries. -/
theorem entries_insert [LawfulMapKey κ] {map : OrderedMap κ ν} (indexed : map.Indexed) (key : κ)
    (value : ν) :
    (map.insert key value).entries.toList =
      Association.insert key value map.entries.toList := by
  have same := position?_eq indexed key
  cases found : map.position? key with
  | none =>
      rw [insert_of_none value found, Association.insert_of_none value (same.symm.trans found)]
      simp
  | some position =>
      rw [insert_of_some value found, Association.insert_of_some value (same.symm.trans found)]
      simp

/-- A key that is found leaves the keys as they are. -/
theorem keys_insert_of_some {map : OrderedMap κ ν} {key : κ} {position : Nat} (value : ν)
    (found : map.position? key = some position) : (map.insert key value).keys = map.keys := by
  rw [insert_of_some value found, keys, keys, Array.toList_modify]
  apply List.ext_getElem?
  intro index
  simp only [List.getElem?_map, List.getElem?_modify]
  cases map.entries.toList[index]? with
  | none => rfl
  | some entry => simp only [Option.map_some]; split <;> rfl

/-- A key that is not found is the last one. -/
theorem keys_insert_of_none {map : OrderedMap κ ν} {key : κ} (value : ν)
    (absent : map.position? key = none) : (map.insert key value).keys = map.keys ++ [key] := by
  rw [insert_of_none value absent]
  simp [keys]

/-- A new position is put into the bucket of its key. -/
theorem bucket_insert_of_none {map : OrderedMap κ ν} {key : κ} (value : ν)
    (absent : map.position? key = none) (hash : UInt64) :
    (map.insert key value).bucket hash =
      if MapKey.hash key = hash then map.bucket hash ++ [map.keys.length] else map.bucket hash := by
  rw [insert_of_none value absent]
  simp only [bucket, keys, Std.HashMap.getD_insert, beq_iff_eq, List.length_map,
    Array.length_toList]
  split
  · rename_i same
    rw [same]
  · rfl

/-- A key that is not there gets the next position. -/
theorem Indexed.insert_of_none [LawfulMapKey κ] {map : OrderedMap κ ν} (indexed : map.Indexed)
    {key : κ} (value : ν) (absent : map.position? key = none) :
    (map.insert key value).Indexed := by
  have keys := keys_insert_of_none value absent
  apply Indexed.of_listed
  · intro hash position
    have listed := indexed.listed hash position
    rw [keys, bucket_insert_of_none value absent]
    by_cases last : position = map.keys.length
    · subst last
      rw [List.getElem?_eq_none (Nat.le_refl _), Option.map_none, if_neg (by simp)] at listed
      rw [List.getElem?_concat_length, Option.map_some]
      by_cases own : MapKey.hash key = hash
      · simp [own, listed]
      · simp [own, listed]
    · have earlier : (map.keys ++ [key])[position]? = map.keys[position]? := by
        rcases Nat.lt_or_gt_of_ne last with before | beyond
        · exact List.getElem?_append_left before
        · rw [List.getElem?_eq_none (Nat.le_of_lt beyond), List.getElem?_eq_none]
          rw [List.length_append]
          exact beyond
      rw [earlier, ← listed]
      split
      · rw [List.count_append, List.count_singleton, beq_false_of_ne (Ne.symm last)]
        rfl
      · rfl
  · rw [keys, List.pairwise_append]
    refine ⟨indexed.distinct, List.pairwise_singleton _ _, fun present member other last => ?_⟩
    obtain rfl := List.mem_singleton.mp last
    obtain ⟨entry, inside, rfl⟩ := List.mem_map.mp member
    rw [position?_eq indexed] at absent
    exact List.findIdx?_eq_none_iff.mp absent entry inside

/-- Insertion keeps the index. A new value for a key changes neither the keys nor the buckets. -/
theorem Indexed.insert [LawfulMapKey κ] {map : OrderedMap κ ν} (indexed : map.Indexed) (key : κ)
    (value : ν) : (map.insert key value).Indexed := by
  cases found : map.position? key with
  | none => exact indexed.insert_of_none value found
  | some position =>
      have keys := keys_insert_of_some value found
      apply Indexed.of_listed
      · intro hash position
        rw [keys, insert_of_some value found]
        exact indexed.listed hash position
      · rw [keys]
        exact indexed.distinct

/-- The empty map is indexed. -/
theorem indexed_empty : (empty : OrderedMap κ ν).Indexed := by
  apply Indexed.of_listed
  · intro hash position
    simp [bucket, keys, empty]
  · exact .nil

/-- A map and the list that it stands for. -/
structure Represents (map : OrderedMap κ ν) (plain : List (κ × ν)) : Prop where
  entries : map.entries.toList = plain
  size : map.size = plain.length
  isEmpty : map.isEmpty = plain.isEmpty
  get? : ∀ key, map.get? key = Association.get? plain key
  indexed : map.Indexed

/-- An indexed map stands for the list of its entries. -/
theorem represents_of_indexed [LawfulMapKey κ] {map : OrderedMap κ ν} (indexed : map.Indexed) :
    map.Represents map.entries.toList where
  entries := rfl
  size := Array.length_toList.symm
  isEmpty := by simp [isEmpty]
  get? := get?_eq indexed
  indexed := indexed

/-- A map stands for the same list after an insertion into both. -/
theorem Represents.insert [LawfulMapKey κ] {map : OrderedMap κ ν} {plain : List (κ × ν)}
    (represents : map.Represents plain) (key : κ) (value : ν) :
    (map.insert key value).Represents (Association.insert key value plain) := by
  have inserted := entries_insert represents.indexed key value
  rw [represents.entries] at inserted
  rw [← inserted]
  exact represents_of_indexed (represents.indexed.insert key value)

/-- A map stands for the same list after all insertions into both. -/
theorem Represents.insertAll [LawfulMapKey κ] {map : OrderedMap κ ν} {plain : List (κ × ν)}
    (represents : map.Represents plain) (pairs : List (κ × ν)) :
    (map.insertAll pairs).Represents (Association.insertAll plain pairs) := by
  induction pairs generalizing map plain with
  | nil => exact represents
  | cons pair rest ih => exact ih (represents.insert pair.1 pair.2)

/-- The empty map stands for the empty list. -/
theorem represents_empty [LawfulMapKey κ] : (empty : OrderedMap κ ν).Represents [] :=
  represents_of_indexed indexed_empty

/-- A map that is made from pairs stands for the list that is. -/
theorem represents_ofList [LawfulMapKey κ] (pairs : List (κ × ν)) :
    (ofList pairs).Represents (Association.insertAll [] pairs) :=
  represents_empty.insertAll pairs

/-- Whatever is inserted into an empty map, or into one that was made from pairs, the map behaves as the
list into which the same pairs are inserted in the same order. Its buckets list each position once, under
the hash of its key. -/
theorem insertAll_represents [LawfulMapKey κ] (later : List (κ × ν)) :
    ((empty : OrderedMap κ ν).insertAll later).Represents (Association.insertAll [] later) ∧
    ∀ pairs : List (κ × ν), ((ofList pairs).insertAll later).Represents
      (Association.insertAll (Association.insertAll [] pairs) later) :=
  ⟨represents_empty.insertAll later, fun pairs => (represents_ofList pairs).insertAll later⟩

/-- Both zeros are one key, which keeps its place and its first form, and NaN is found again. -/
theorem insertAll_represents_numbers :
    let pairs : List (Value × Value) :=
      [(.number 0.0, .text "zero"), (.number (0.0 / 0.0), .boolean true)]
    let map := (ofList pairs).insertAll [(.number (-0.0), .text "negative zero")]
    LawfulMapKey Value ∧
    map.entries.toList =
      [(.number 0.0, .text "negative zero"), (.number (0.0 / 0.0), .boolean true)] ∧
    map.size = 2 ∧ map.isEmpty = false ∧ map.get? (.number (0.0 / 0.0)) = some (.boolean true) ∧
    map.Indexed := by
  intro pairs map
  have represents :=
    (insertAll_represents [(Value.number (-0.0), Value.text "negative zero")]).2 pairs
  exact ⟨inferInstance, represents.entries, represents.size, represents.isEmpty,
    represents.get? _, represents.indexed⟩

end OrderedMap

end OffsideScript
