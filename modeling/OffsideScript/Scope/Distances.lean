import OffsideScript.Scope.Finding

namespace OffsideScript

/-- The distance of each reference to a local variable, at the index of its node. -/
structure Distances where
  slots : Array (Option Nat)

namespace Distances

def empty : Distances := ⟨#[]⟩

/-- Records the distance of a node. -/
def record (distances : Distances) (node : NodeId) (hops : Nat) : Distances :=
  let padding := Array.replicate (node + 1 - distances.slots.size) none
  ⟨(distances.slots ++ padding).setIfInBounds node (some hops)⟩

/-- The distance of a node, if one was recorded. -/
def find? (distances : Distances) (node : NodeId) : Option Nat :=
  distances.slots[node]?.join

/-- The number of references that have a distance. -/
def size (distances : Distances) : Nat :=
  distances.slots.countP Option.isSome

/-- The table of all distances that were found. -/
def ofFindings (findings : List Finding) : Distances :=
  (findings.filterMap Finding.distance?).foldl
    (fun distances (node, hops) => distances.record node hops) empty

end Distances

/-- The distances and the faults of the references in a program. -/
def Program.resolve (program : Program) : Distances × List ScopeError :=
  let findings := program.findings
  (.ofFindings findings, findings.filterMap Finding.fault?)

end OffsideScript
