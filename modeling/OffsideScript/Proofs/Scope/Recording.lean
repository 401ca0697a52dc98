import OffsideScript.Proofs.Grammar.NodeOrder
import OffsideScript.Proofs.Scope.Lexical

namespace OffsideScript

namespace Distances

/-- A distance that is recorded for a new node is one more. -/
theorem size_record {distances : Distances} {node : Nat} (hops : Nat)
    (fresh : distances.find? node = none) :
    (distances.record node hops).size = distances.size + 1 := by
  let padded := distances.slots ++ Array.replicate (node + 1 - distances.slots.size) none
  have inside : node < padded.size := by
    simp only [padded, Array.size_append, Array.size_replicate]
    omega
  have blank : padded[node] = none := by
    simp only [padded, Array.getElem_append]
    split
    · next within =>
        rw [find?, Array.getElem?_eq_getElem within] at fresh
        simpa using fresh
    · exact Array.getElem_replicate ..
  have same : padded.countP Option.isSome = distances.size := by
    simp [padded, size, Array.countP_append, Array.countP_replicate]
  change (padded.setIfInBounds node (some hops)).countP Option.isSome = _
  rw [Array.setIfInBounds_def, dif_pos inside, Array.countP_set, same, blank]
  rfl

/-- Recording entries for different new nodes adds as many. -/
theorem size_foldl (entries : List (NodeId × Nat)) (distances : Distances)
    (distinct : (entries.map Prod.fst).Nodup)
    (fresh : ∀ node ∈ entries.map Prod.fst, distances.find? node = none) :
    (entries.foldl (fun distances (node, hops) => distances.record node hops) distances).size =
      distances.size + entries.length := by
  induction entries generalizing distances with
  | nil => rfl
  | cons entry rest ih =>
      obtain ⟨node, hops⟩ := entry
      rw [List.map_cons, List.nodup_cons] at distinct
      have still : ∀ other ∈ rest.map Prod.fst, (distances.record node hops).find? other = none := by
        intro other member
        have different : other ≠ node := fun same => distinct.1 (same ▸ member)
        rw [find?_record, if_neg different]
        exact fresh other (List.mem_cons_of_mem _ member)
      rw [List.foldl_cons, ih _ distinct.2 still,
        size_record hops (fresh node List.mem_cons_self), List.length_cons]
      omega

/-- The findings are recorded one after the other. -/
theorem ofFindings_concat (findings : List Finding) (node : NodeId) (hops : Nat) :
    ofFindings (findings ++ [.distance node hops]) = (ofFindings findings).record node hops := by
  unfold ofFindings
  rw [List.filterMap_append, List.foldl_append]
  rfl

end Distances

namespace Position

/-- The references of a statement to names that a scope inside of the program declares. -/
def localReferences (position : Position) : List Reference :=
  position.references.filter fun reference => (position.distance? reference.name.lexeme).isSome

/-- There is an entry for each local reference. -/
theorem length_entries (positions : List Position) :
    (positions.flatMap entries).length = (positions.flatMap localReferences).length := by
  induction positions with
  | nil => rfl
  | cons position rest ih =>
      have here : position.entries.length = position.localReferences.length := by
        simp [entries, localReferences, entry?, List.length_filterMap_eq_countP, List.countP_eq_length_filter]
      rw [List.flatMap_cons, List.flatMap_cons, List.length_append, List.length_append, here, ih]

end Position

namespace Program

variable {program : Program} (distinct : (program.references.map Reference.node).Nodup)
include distinct

/-- No node gets two entries. -/
theorem entries_nodup : ((program.findings.filterMap Finding.distance?).map Prod.fst).Nodup := by
  rw [program.findings_distances]
  rw [← program.sites_references] at distinct
  exact distinct.sublist (Site.entries_sublist _)

/-- An entry is recorded where the table has none, and stays. -/
theorem recorded_once {before after : List Finding} {node : NodeId} {hops : Nat}
    (listed : program.findings = before ++ .distance node hops :: after) :
    (Distances.ofFindings before).find? node = none ∧
      program.resolve.1.find? node = some hops := by
  have once := entries_nodup distinct
  have entries : program.findings.filterMap Finding.distance? =
      before.filterMap Finding.distance? ++ (node, hops) :: after.filterMap Finding.distance? := by
    rw [listed, List.filterMap_append]
    rfl
  constructor
  · rw [Distances.ofFindings, Distances.find?_foldl_of_notMem, Distances.find?_empty]
    rw [entries, List.map_append, List.map_cons] at once
    intro earlier
    exact (List.nodup_append.mp once).2.2 _ earlier _ List.mem_cons_self rfl
  · apply Distances.find?_foldl_of_mem _ _ once
    rw [entries]
    exact List.mem_append_right _ List.mem_cons_self

/-- The table has as many entries as there are references to local variables. -/
theorem resolve_size : program.resolve.1.size =
    (program.positions.flatMap Position.localReferences).length := by
  have total := Distances.size_foldl _ .empty (entries_nodup distinct)
    fun node _ => Distances.find?_empty node
  change (Distances.ofFindings program.findings).size = _
  rw [Distances.ofFindings, total, program.findings_accounts.entries.length_eq,
    Position.length_entries]
  exact Nat.zero_add _

end Program

namespace Program

/-- The references of the program that any tokens form have different numbers, which ascend in the order of
their names in the source. Each is recorded in the table of distances once at most, where the table has no
entry yet, so the table has as many entries as there are references to names that a local scope around them
declares. -/
theorem resolve_records_once (tokens : List Token) :
    (∃ ordered : List Occurrence,
      ordered.Perm ((ofTokens tokens).1.references.map Reference.occurrence) ∧
      (ordered.map Prod.fst).Pairwise (· < ·) ∧
      (ordered.map Prod.snd).Sublist (tokens.takeWhile (·.kind ≠ .endOfFile))) ∧
    ((ofTokens tokens).1.references.map Reference.node).Nodup ∧
    ((((ofTokens tokens).1.findings.filterMap Finding.distance?).map Prod.fst).Nodup ∧
      ∀ before node hops after,
        (ofTokens tokens).1.findings = before ++ .distance node hops :: after →
          (Distances.ofFindings before).find? node = none ∧
          Distances.ofFindings (before ++ [.distance node hops]) =
            (Distances.ofFindings before).record node hops ∧
          (ofTokens tokens).1.resolve.1.find? node = some hops) ∧
    ((ofTokens tokens).1.positions.flatMap Position.references).Perm (ofTokens tokens).1.references ∧
    (ofTokens tokens).1.resolve.1.size =
      ((ofTokens tokens).1.positions.flatMap Position.localReferences).length := by
  have distinct := ofTokens_nodup tokens
  obtain ⟨ascends, written⟩ := ofTokens_numbered tokens
  refine ⟨⟨_, (Statement.occurrencesAll_perm _).symm, ascends, written⟩, distinct,
    ⟨entries_nodup distinct, fun before node hops after listed => ?_⟩,
    Statement.positionsAll_references .program [] _, resolve_size distinct⟩
  obtain ⟨absent, found⟩ := recorded_once distinct listed
  exact ⟨absent, Distances.ofFindings_concat before node hops, found⟩

end Program

end OffsideScript
