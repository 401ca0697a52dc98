import OffsideScript.Proofs.Scope.Site
import OffsideScript.Scope.Distances
import Mathlib.Data.List.Nodup

namespace OffsideScript

namespace Distances

/-- The empty table has no distance. -/
theorem find?_empty (node : NodeId) : empty.find? node = none := by
  simp [empty, find?]

/-- Recording a distance changes the entry of its node only. -/
theorem find?_record (distances : Distances) (node other hops : Nat) :
    (distances.record node hops).find? other =
      if other = node then some hops else distances.find? other := by
  unfold find? record
  by_cases same : other = node
  · subst other
    have inside : node < (distances.slots ++
        Array.replicate (node + 1 - distances.slots.size) none).size := by
      simp only [Array.size_append, Array.size_replicate]
      omega
    simp only [Array.getElem?_setIfInBounds_self_of_lt inside, Option.join_some, if_true]
  · rw [Array.getElem?_setIfInBounds_ne (Ne.symm same), if_neg same]
    by_cases inside : other < distances.slots.size
    · rw [Array.getElem?_append_left inside]
    · have outside : distances.slots.size ≤ other := Nat.le_of_not_lt inside
      rw [Array.getElem?_append_right outside, Array.getElem?_eq_none outside]
      by_cases padded : other - distances.slots.size < node + 1 - distances.slots.size <;>
        simp [padded]

/-- Recording entries keeps the distances of nodes that are not among them. -/
theorem find?_foldl_of_notMem (entries : List (NodeId × Nat)) (distances : Distances)
    (node : NodeId) (absent : node ∉ entries.map Prod.fst) :
    (entries.foldl (fun distances (node, hops) => distances.record node hops) distances).find?
      node = distances.find? node := by
  induction entries generalizing distances with
  | nil => rfl
  | cons entry rest ih =>
      rw [List.map_cons, List.mem_cons, not_or] at absent
      rw [List.foldl_cons, ih _ absent.2, find?_record, if_neg absent.1]

/-- If no node occurs twice, each recorded entry can be found. -/
theorem find?_foldl_of_mem (entries : List (NodeId × Nat)) (distances : Distances)
    (distinct : (entries.map Prod.fst).Nodup) (node : NodeId) (hops : Nat)
    (present : (node, hops) ∈ entries) :
    (entries.foldl (fun distances (node, hops) => distances.record node hops) distances).find?
      node = some hops := by
  induction entries generalizing distances with
  | nil => cases present
  | cons entry rest ih =>
      rw [List.map_cons, List.nodup_cons] at distinct
      rw [List.foldl_cons]
      rcases List.mem_cons.mp present with rfl | later
      · rw [find?_foldl_of_notMem rest _ _ distinct.1, find?_record, if_pos rfl]
      · exact ih _ distinct.2 later

end Distances

/-- The entry that the table should hold for a node. -/
def Site.entry? (site : Site) : Option (NodeId × Nat) :=
  site.reference?.bind fun reference =>
    (site.frames.scopes.distance? reference.name.lexeme).map (reference.node, ·)

/-- A fault has no distance. -/
theorem Finding.faultIf_distances (condition : Bool) (token : Token)
    (reason : ScopeError.Reason) :
    (faultIf condition token reason).filterMap distance? = [] := by
  cases condition <;> rfl

/-- A reference has the distance of its name. -/
theorem Finding.ofReference_distances (scopes : Scopes) (node : NodeId) (name : Token) :
    (ofReference scopes node name).filterMap distance? =
      ((scopes.distance? name.lexeme).map (node, ·)).toList := by
  unfold ofReference
  cases scopes.distance? name.lexeme <;> rfl

/-- A node has at most one distance. -/
theorem Site.findings_distances (site : Site) :
    site.findings.filterMap Finding.distance? = site.entry?.toList := by
  rcases site with ⟨node, frames⟩
  cases node with
  | expression value =>
      cases value with
      | «variable» node name =>
          simp [findings, entry?, reference?, Finding.faultIf_distances,
            Finding.ofReference_distances]
      | _ => rfl
  | target node name => simp [findings, entry?, reference?, Finding.ofReference_distances]
  | statement context step =>
      cases step with
      | ret keyword value => exact Finding.faultIf_distances _ _ _
      | breakLoop keyword => exact Finding.faultIf_distances _ _ _
      | continueLoop keyword => exact Finding.faultIf_distances _ _ _
      | _ => rfl

/-- The recorded entries are those of the nodes, in their order. -/
theorem Program.findings_distances (program : Program) :
    program.findings.filterMap Finding.distance? = program.sites.filterMap Site.entry? := by
  rw [← program.sites_findings]
  induction program.sites with
  | nil => rfl
  | cons site rest ih =>
      rw [List.flatMap_cons, List.filterMap_append, ih, site.findings_distances,
        List.filterMap_cons]
      cases site.entry? <;> rfl

/-- The table says of a reference what the scopes around it say, and no variable is read while the
innermost scope is still declaring it. -/
def Site.Located (distances : Distances) (site : Site) : Prop :=
  ∀ reference, site.reference? = some reference →
    distances.find? reference.node = site.frames.scopes.distance? reference.name.lexeme ∧
      (reference.assigns = false →
        site.frames.scopes.isDeclaring reference.name.lexeme = false)

/-- A variable that is read in its own initial value is a fault. -/
theorem Site.fault_of_isDeclaring {site : Site} {reference : Reference}
    (refers : site.reference? = some reference) (reads : reference.assigns = false)
    (declaring : site.frames.scopes.isDeclaring reference.name.lexeme = true) :
    Finding.fault (.at reference.name .selfReference) ∈ site.findings := by
  rcases site with ⟨node, frames⟩
  cases node with
  | expression value =>
      cases value with
      | «variable» node name =>
          cases refers
          simp only [findings, Finding.faultIf, declaring, if_true]
          exact List.mem_cons_self
      | _ => cases refers
  | target node name =>
      cases refers
      cases reads
  | statement context step => cases refers

/-- Only references have entries. -/
theorem Site.entries_sublist (sites : List Site) :
    ((sites.filterMap entry?).map Prod.fst).Sublist
      ((sites.filterMap reference?).map Reference.node) := by
  induction sites with
  | nil => exact .refl _
  | cons site rest ih =>
      rw [List.filterMap_cons, List.filterMap_cons, entry?]
      cases site.reference? with
      | none => exact ih
      | some reference =>
          rw [Option.bind_some]
          cases site.frames.scopes.distance? reference.name.lexeme with
          | none => exact ih.cons _
          | some hops => exact ih.cons_cons _

/-- If references have different nodes, the node tells the site. -/
theorem Site.eq_of_node {sites : List Site}
    (distinct : ((sites.filterMap reference?).map Reference.node).Nodup) {site other : Site}
    (member : site ∈ sites) (otherMember : other ∈ sites) {reference twin : Reference}
    (refers : site.reference? = some reference) (twinRefers : other.reference? = some twin)
    (same : twin.node = reference.node) : other = site := by
  let placed : List (NodeId × Site) :=
    sites.filterMap fun site => site.reference?.map (·.node, site)
  have keys : placed.map Prod.fst = (sites.filterMap reference?).map Reference.node := by
    rw [List.map_filterMap, List.map_filterMap]
    apply List.filterMap_congr
    intro site _
    cases site.reference? <;> rfl
  have listed {site : Site} (member : site ∈ sites) {reference : Reference}
      (refers : site.reference? = some reference) : (reference.node, site) ∈ placed :=
    List.mem_filterMap.mpr ⟨site, member, by rw [refers]; rfl⟩
  have equal := List.inj_on_of_nodup_map (keys.symm ▸ distinct) (listed otherMember twinRefers)
    (listed member refers) same
  exact (Prod.mk.inj equal).2

/-- The table of a program has the entries of its sites. -/
theorem Program.find?_resolve (program : Program)
    (distinct : ((program.sites.filterMap Site.reference?).map Reference.node).Nodup)
    {site : Site} (member : site ∈ program.sites) {reference : Reference}
    (refers : site.reference? = some reference) :
    program.resolve.1.find? reference.node =
      site.frames.scopes.distance? reference.name.lexeme := by
  change (Distances.ofFindings program.findings).find? reference.node = _
  rw [Distances.ofFindings, program.findings_distances]
  cases found : site.frames.scopes.distance? reference.name.lexeme with
  | some hops =>
      apply Distances.find?_foldl_of_mem _ _ (distinct.sublist (Site.entries_sublist _))
      exact List.mem_filterMap.mpr ⟨site, member, by simp [Site.entry?, refers, found]⟩
  | none =>
      rw [Distances.find?_foldl_of_notMem, Distances.find?_empty]
      intro recorded
      obtain ⟨⟨node, hops⟩, inside, same⟩ := List.mem_map.mp recorded
      obtain ⟨other, otherMember, entry⟩ := List.mem_filterMap.mp inside
      obtain ⟨twin, twinRefers, distance⟩ := Option.bind_eq_some_iff.mp entry
      obtain ⟨_, twinFound, pair⟩ := Option.map_eq_some_iff.mp distance
      have nodeSame : twin.node = reference.node := (Prod.mk.inj pair).1.trans same
      have siteSame : other = site :=
        Site.eq_of_node distinct member otherMember refers twinRefers nodeSame
      rw [siteSame, refers, Option.some.injEq] at twinRefers
      rw [siteSame, ← twinRefers, found] at twinFound
      cases twinFound

/-- If the references of a program have different nodes and the analysis of scopes finds no fault, all
references are located by its table. -/
theorem Program.located_of_resolve (program : Program)
    (distinct : (program.references.map Reference.node).Nodup) (distances : Distances)
    (resolved : program.resolve = (distances, [])) :
    ∀ site ∈ program.sites, site.Located distances := by
  rw [← program.sites_references] at distinct
  have faultless : ∀ finding ∈ program.findings, finding.fault? = none :=
    List.filterMap_eq_nil_iff.mp (congrArg Prod.snd resolved)
  intro site member reference refers
  constructor
  · have table : program.resolve.1 = distances := by rw [resolved]
    rw [← table]
    exact program.find?_resolve distinct member refers
  · intro reads
    by_contra declaring
    rw [Bool.not_eq_false] at declaring
    have fault : Finding.fault (.at reference.name .selfReference) ∈ program.findings := by
      rw [← program.sites_findings]
      exact List.mem_flatMap.mpr ⟨site, member, Site.fault_of_isDeclaring refers reads declaring⟩
    have impossible := faultless _ fault
    cases impossible

end OffsideScript
