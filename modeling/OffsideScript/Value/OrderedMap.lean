import Std.Data.HashMap

namespace OffsideScript

/-- Keys that are the same must have the same hash. -/
class MapKey (κ : Type) where
  same : κ → κ → Bool
  hash : κ → UInt64

/-- The entries in the order of insertion, and for each hash the positions of its entries. -/
structure OrderedMap (κ ν : Type) where
  entries : Array (κ × ν)
  buckets : Std.HashMap UInt64 (List Nat)

namespace OrderedMap

variable {κ ν : Type}

def empty : OrderedMap κ ν := ⟨#[], ∅⟩

def size (map : OrderedMap κ ν) : Nat :=
  map.entries.size

def isEmpty (map : OrderedMap κ ν) : Bool :=
  map.entries.isEmpty

variable [MapKey κ]

/-- The place of a key among the entries, which its bucket leads to. -/
def position? (map : OrderedMap κ ν) (key : κ) : Option Nat :=
  (map.buckets.getD (MapKey.hash key) []).find? fun position =>
    map.entries[position]?.any fun (present, _) => MapKey.same present key

/-- The value of a key. -/
def get? (map : OrderedMap κ ν) (key : κ) : Option ν :=
  (map.position? key).bind fun position => map.entries[position]?.map Prod.snd

/-- A key that is already there keeps its place and its first form. -/
def insert (map : OrderedMap κ ν) (key : κ) (value : ν) : OrderedMap κ ν :=
  match map.position? key with
  | some position =>
      { map with entries := map.entries.modify position fun (present, _) => (present, value) }
  | none =>
      let position := map.entries.size
      let hash := MapKey.hash key
      { entries := map.entries.push (key, value)
        buckets := map.buckets.insert hash (map.buckets.getD hash [] ++ [position]) }

/-- Entries are inserted from the first one on. -/
def ofList (entries : List (κ × ν)) : OrderedMap κ ν :=
  entries.foldl (fun map (key, value) => map.insert key value) empty

end OrderedMap

end OffsideScript
