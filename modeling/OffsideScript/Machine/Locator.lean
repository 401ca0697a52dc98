import OffsideScript.Heap.Basic
import OffsideScript.Scope.Distances

namespace OffsideScript

/-- Finds the environment of a reference from the current and the global environment. -/
abbrev Locator :=
  Heap → EnvironmentRef → EnvironmentRef → NodeId → String → Option EnvironmentRef

/-- A reference without a distance means a global variable. -/
def Distances.locator (distances : Distances) : Locator :=
  fun heap current globals node _ =>
    match distances.find? node with
    | some hops => heap.ancestor? current hops
    | none => some globals

/-- A reference means the innermost environment that binds its name. -/
def Locator.byName : Locator :=
  fun heap current _ _ name => heap.innermost? name heap.environments.size current

end OffsideScript
