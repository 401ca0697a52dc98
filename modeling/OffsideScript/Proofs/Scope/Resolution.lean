import OffsideScript.Proofs.Grammar.NodeOrder
import OffsideScript.Proofs.Scope.Invariant
import OffsideScript.Proofs.Scope.Table

namespace OffsideScript

/-- What is looked up in a scope is in it. -/
theorem Scope.mem_of_lookup {scope : Scope} {name : String} {complete : Bool}
    (found : scope.lookup name = some complete) : (name, complete) ∈ scope := by
  obtain ⟨before, after, rfl, _⟩ := List.lookup_eq_some_iff.mp found
  exact List.mem_append_right _ List.mem_cons_self

/-- What is in a scope can be looked up. -/
theorem Scope.lookup_isSome {scope : Scope} {name : String} {complete : Bool}
    (member : (name, complete) ∈ scope) : (scope.lookup name).isSome = true := by
  rw [Option.isSome_iff_ne_none]
  intro absent
  have different := List.lookup_eq_none_iff.mp absent _ member
  simp at different

/-- In settled frames no name is being declared. -/
theorem Frames.isDeclaring_of_settled {frames : Frames} (settled : frames.Settled)
    (name : String) : frames.scopes.isDeclaring name = false := by
  cases frames with
  | nil => rfl
  | cons frame outer =>
      change (frame.scope.lookup name == some false) = false
      cases found : frame.scope.lookup name with
      | none => rfl
      | some complete =>
          have whole : complete = true :=
            settled frame List.mem_cons_self _ (Scope.mem_of_lookup found)
          rw [whole]
          rfl

/-- An accepted text passes its three stages without an error. -/
theorem compile_eq_ok {source : String} {compiled : Compiled}
    (accepted : compile source = .ok compiled) :
    ∃ tokens, Token.scan source = (tokens, []) ∧
      Program.ofTokens tokens = (compiled.program, []) ∧
      compiled.program.resolve = (compiled.distances, []) := by
  unfold compile parse at accepted
  rcases scanned : Token.scan source with ⟨tokens, faults⟩
  rw [scanned] at accepted
  cases faults with
  | cons fault rest => cases accepted
  | nil =>
      rcases read : Program.ofTokens tokens with ⟨program, errors⟩
      dsimp only at accepted
      rw [read] at accepted
      cases errors with
      | cons error rest => cases accepted
      | nil =>
          rcases resolved : program.resolve with ⟨distances, found⟩
          simp only [bind, Except.bind, resolved] at accepted
          cases found with
          | cons error rest => cases accepted
          | nil =>
              cases accepted
              exact ⟨tokens, rfl, read, resolved⟩

/-- A test of what a text compiles to shows that it compiles. -/
theorem compile_of_check (source : String) (check : Compiled → Bool)
    (passes : (match compile source with
      | .ok compiled => check compiled
      | .error _ => false) = true) :
    ∃ compiled, compile source = .ok compiled ∧ check compiled = true := by
  cases accepted : compile source with
  | ok compiled =>
      rw [accepted] at passes
      exact ⟨compiled, rfl, passes⟩
  | error diagnostics =>
      rw [accepted] at passes
      cases passes

deriving instance DecidableEq for Failure

namespace World.Chain

variable {world : World} {heap : Heap} {globals ref : EnvironmentRef} {frames : Frames}

/-- A name is at no distance if the innermost local scope has it, and else one further than from outside. -/
theorem distance?_cons {frame : Frame} {outer : Frames} (nonempty : outer ≠ []) (name : String) :
    Scopes.distance? name (Frames.scopes (frame :: outer)) =
      if (frame.scope.lookup name).isSome then some 0
      else (outer.scopes.distance? name).map (· + 1) := by
  cases outer with
  | nil => exact absurd rfl nonempty
  | cons next outer => rfl

/-- The environments around a place are as many as its scopes, and the last one is global. -/
theorem ancestor?_eq_some (chain : world.Chain heap globals ref frames) {hops : Nat}
    {frame : Frame} (found : frames[hops]? = some frame) :
    ∃ ancestor, heap.ancestor? ref hops = some ancestor ∧
      (ancestor = globals ↔ hops + 1 = frames.length) ∧
      ∀ name, (name, true) ∈ frame.scope → heap.binds ancestor name = true := by
  induction chain generalizing hops with
  | root bound =>
      cases hops with
      | zero =>
          cases found
          exact ⟨globals, rfl, by simp, bound⟩
      | succ hops => simp at found
  | child inner _ _ bound enclosed _ rest ih =>
      cases hops with
      | zero =>
          cases found
          refine ⟨_, rfl, ⟨fun same => absurd same inner, fun single => ?_⟩, bound⟩
          have empty : _ = 0 := Nat.succ.inj single.symm
          exact absurd (List.length_eq_zero_iff.mp empty) rest.nonempty
      | succ hops =>
          obtain ⟨ancestor, reached, last, names⟩ := ih found
          refine ⟨ancestor, ?_, last.trans (by simp), names⟩
          rw [Heap.ancestor?, enclosed]
          exact reached

/-- Nothing lies around the global environment. -/
theorem ancestor?_length (chain : world.Chain heap globals ref frames)
    (outermost : heap.parent? globals = none) :
    heap.ancestor? ref frames.length = none := by
  induction chain with
  | root => simp [Heap.ancestor?, outermost]
  | child _ _ _ _ enclosed _ _ ih =>
      rw [List.length_cons, Heap.ancestor?, enclosed]
      exact ih

/-- A name that the scopes around a place know, and that is not being declared there, is bound at its
distance. -/
theorem binds_of_distance? (chain : world.Chain heap globals ref frames) {name : String}
    {hops : Nat} (complete : frames.scopes.isDeclaring name = false)
    (found : frames.scopes.distance? name = some hops) :
    ∃ ancestor, heap.ancestor? ref hops = some ancestor ∧ ancestor ≠ globals ∧
      heap.binds ancestor name = true := by
  induction chain generalizing hops with
  | root => cases found
  | @child ref parent frame outer inner _ _ bound enclosed settled rest ih =>
      rw [distance?_cons rest.nonempty] at found
      by_cases known : (frame.scope.lookup name).isSome = true
      · rw [if_pos known] at found
        cases found
        obtain ⟨whole, looked⟩ := Option.isSome_iff_exists.mp known
        have here : whole = true := by
          rw [Frames.scopes_cons, Scopes.isDeclaring, looked] at complete
          cases whole with
          | true => rfl
          | false => cases complete
        rw [here] at looked
        exact ⟨ref, rfl, inner, bound name (Scope.mem_of_lookup looked)⟩
      · rw [if_neg known] at found
        obtain ⟨further, foundOuter, rfl⟩ := Option.map_eq_some_iff.mp found
        obtain ⟨ancestor, reached, away, names⟩ :=
          ih (Frames.isDeclaring_of_settled settled name) foundOuter
        refine ⟨ancestor, ?_, away, names⟩
        rw [Heap.ancestor?, enclosed]
        exact reached

/-- Where each local scope that declares a name has completed a declaration of it, a search by name ends where
the scopes say. An environment binds nothing that its frame does not declare. -/
theorem innermost?_eq (chain : world.Chain heap globals ref frames) {name : String}
    (outermost : heap.parent? globals = none)
    (descends : ∀ ref parent, heap.parent? ref = some parent → parent.index < ref.index)
    (confined : ∀ ref names, ref ≠ globals → world.declared[ref.index]? = some names →
      heap.binds ref name = true → name ∈ names)
    (earlier : ∀ frame ∈ frames.dropLast, name ∈ frame.declared → (name, true) ∈ frame.scope)
    {limit : Nat} (enough : ref.index < limit) :
    heap.innermost? name limit ref =
      (match frames.scopes.distance? name with
      | some hops => heap.ancestor? ref hops
      | none => some globals).filter (heap.binds · name) := by
  induction chain generalizing limit with
  | root =>
      obtain ⟨limit, rfl⟩ := Nat.exists_eq_succ_of_ne_zero (Nat.ne_zero_of_lt enough)
      rw [Heap.innermost?, outermost]
      by_cases bound : heap.binds globals name <;>
        simp [Scopes.distance?, Frames.scopes, Option.filter, bound]
  | @child ref parent frame outer inner declares listed bound enclosed _ rest ih =>
      obtain ⟨limit, rfl⟩ := Nat.exists_eq_succ_of_ne_zero (Nat.ne_zero_of_lt enough)
      have shorter : (frame :: outer).dropLast = frame :: outer.dropLast :=
        List.dropLast_cons_of_ne_nil rest.nonempty
      rw [shorter] at earlier
      obtain ⟨here, further⟩ := List.forall_mem_cons.mp earlier
      rw [distance?_cons rest.nonempty, Heap.innermost?, enclosed, Option.bind_some]
      by_cases known : (frame.scope.lookup name).isSome = true
      · obtain ⟨whole, looked⟩ := Option.isSome_iff_exists.mp known
        have binds := bound name (here (listed _ (Scope.mem_of_lookup looked)))
        rw [if_pos known, if_pos binds]
        simp [Heap.ancestor?, Option.filter, binds]
      · have free : ¬heap.binds ref name = true := fun binds =>
          known (Scope.lookup_isSome (here (confined ref _ inner declares binds)))
        have below : parent.index < limit :=
          Nat.lt_of_lt_of_le (descends ref parent enclosed) (Nat.le_of_lt_succ enough)
        rw [if_neg known, if_neg free, ih further below]
        cases outer.scopes.distance? name with
        | none => rfl
        | some hops => simp [Heap.ancestor?, enclosed]

end World.Chain

/-- The environments from the current one outward are as many as the scopes around the node, the last
one is the global one, and each binds the names whose declaration is complete in its scope. -/
structure Visit.Aligned (visit : Visit) : Prop where
  reaches : ∀ hops scope, visit.scopes[hops]? = some scope →
    ∃ ref, visit.machine.heap.ancestor? visit.machine.environment hops = some ref ∧
      (ref = visit.machine.globals ↔ hops + 1 = visit.scopes.length) ∧
      ∀ name, (name, true) ∈ scope → visit.machine.heap.binds ref name = true
  ends : visit.machine.heap.ancestor? visit.machine.environment visit.scopes.length = none

/-- A visit in its place is aligned. -/
theorem Visit.Placed.aligned {rule : Site → Prop} {locator : Locator} {visit : Visit}
    (placed : visit.Placed rule locator) : visit.Aligned := by
  obtain ⟨world, frames, shape, fits, chain, _⟩ := placed
  rw [Frames.scopes] at shape
  constructor
  · intro hops scope found
    rw [← shape, List.getElem?_map] at found
    obtain ⟨frame, here, rfl⟩ := Option.map_eq_some_iff.mp found
    rw [← shape, List.length_map]
    exact chain.ancestor?_eq_some here
  · rw [← shape, List.length_map]
    exact chain.ancestor?_length fits.outermost

/-- The nodes of an accepted program obey its table of distances. -/
theorem Compiled.located {source : String} {compiled : Compiled}
    (accepted : compile source = .ok compiled) :
    ∀ site ∈ compiled.program.sites, site.Located compiled.distances := by
  obtain ⟨tokens, _, read, resolved⟩ := compile_eq_ok accepted
  have distinct := Program.ofTokens_nodup tokens
  rw [read] at distinct
  exact compiled.program.located_of_resolve distinct compiled.distances resolved

/-- A locator agrees with itself. -/
theorem Visit.agrees_self {rule : Site → Prop} {locator : Locator} {visit : Visit}
    (placed : visit.Placed rule locator) : visit.Agrees locator := by
  obtain ⟨_, _, _, fits, _⟩ := placed
  unfold Visit.Agrees
  rw [fits.located]
  split <;> trivial

/-- A read of a local variable finds it at its distance. -/
theorem Visit.Placed.read_ok {rule : Site → Prop} {distances : Distances} {visit : Visit}
    {node : NodeId} {name : Token} {hops : Nat} (placed : visit.Placed rule distances.locator)
    (located : ∀ site, rule site → site.Located distances)
    (reads : visit.node = .expression (.variable node name))
    (found : distances.find? node = some hops) :
    ∃ ref value, visit.machine.heap.ancestor? visit.machine.environment hops = some ref ∧
      ref ≠ visit.machine.globals ∧ visit.machine.heap.get? ref name.lexeme = some value ∧
      Exec.read node name visit.machine = .ok value visit.machine := by
  obtain ⟨world, frames, _, fits, chain, obeys⟩ := placed
  rw [reads] at obeys
  obtain ⟨table, complete⟩ := located _ obeys ⟨node, false, name⟩ rfl
  obtain ⟨ref, reached, inner, bound⟩ :=
    chain.binds_of_distance? (complete rfl) (table.symm.trans found)
  obtain ⟨value, present⟩ := Option.isSome_iff_exists.mp bound
  have place : visit.machine.place visit.machine.locator node name.lexeme = some ref := by
    unfold Machine.place
    rw [fits.located, Distances.locator, found]
    simp [reached, Option.filter, bound]
  refine ⟨ref, value, reached, inner, present, ?_⟩
  rw [Exec.read_eq, place, Option.bind_some, present]

/-- Whatever an accepted source text does on a machine that starts, each node runs in environments that
stand for the scopes which the analysis had around this node, and a variable with a distance is found in
the local environment at this distance. The recorded visits are all places where the run finds a
variable: it does not change with a locator that agrees there. -/
theorem Machine.trace_resolved (source : String) (compiled : Compiled)
    (accepted : compile source = .ok compiled) (fuel : Nat) (files : FileSystem) (clock : Clock)
    (sink : Sink) :
    let machine := Machine.start files clock sink
    let locator := compiled.distances.locator
    let run := machine.trace fuel compiled.program locator
    machine.interpret fuel compiled.program locator = (run.1, run.2.machine.relocate locator) ∧
    (∀ other : Locator, (∀ visit ∈ run.2.visits, visit.Agrees other) →
      machine.interpret fuel compiled.program other = (run.1, run.2.machine.relocate other)) ∧
    ∀ visit ∈ run.2.visits,
      (∃ site ∈ compiled.program.sites,
        site.node = visit.node ∧ site.frames.scopes = visit.scopes) ∧
      visit.Aligned ∧
      ∀ node name hops, visit.node = .expression (.variable node name) →
        compiled.distances.find? node = some hops →
        ∃ ref value, visit.machine.heap.ancestor? visit.machine.environment hops = some ref ∧
          ref ≠ visit.machine.globals ∧ visit.machine.heap.get? ref name.lexeme = some value ∧
          Exec.read node name visit.machine = .ok value visit.machine := by
  intro machine locator run
  have placed := machine.trace_placed fuel
    (World.first_fits_start (fun site => site ∈ compiled.program.sites) locator files clock sink)
    rfl (fun _ member => member)
  have others (other : Locator) := machine.interpret_eq_trace fuel compiled.program locator other
  refine ⟨others locator fun visit member => Visit.agrees_self (placed visit member), others, ?_⟩
  intro visit member
  have here := placed visit member
  refine ⟨?_, here.aligned, fun node name hops reads found =>
    here.read_ok (Compiled.located accepted) reads found⟩
  obtain ⟨_, frames, shape, _, _, listed⟩ := here
  exact ⟨⟨visit.node, frames⟩, listed, rfl, shape⟩

/-- The variable that is evaluated. -/
def Visit.variable? (visit : Visit) : Option NodeId :=
  match visit.node with
  | .expression (.variable node _) => some node
  | _ => none

/-- The parameter of a function is read at its distance. -/
theorem Machine.trace_resolved_parameter :
    ∃ compiled, compile "func same(word)\n    ret word\nprint same('a')\n" = .ok compiled ∧
      ∃ visit ∈ ((Machine.start ⟨[], [], true⟩ (.still 0) (.empty none)).trace 20 compiled.program
          compiled.distances.locator).2.visits,
        ∃ node name value, visit.node = .expression (.variable node name) ∧
          compiled.distances.find? node = some 0 ∧
          Exec.read node name visit.machine = .ok value visit.machine := by
  obtain ⟨compiled, accepted, checked⟩ :=
    compile_of_check "func same(word)\n    ret word\nprint same('a')\n"
      (fun compiled =>
        ((Machine.start ⟨[], [], true⟩ (.still 0) (.empty none)).trace 20 compiled.program
          compiled.distances.locator).2.visits.any fun visit =>
            visit.variable?.bind compiled.distances.find? == some 0)
      (by decide +kernel)
  obtain ⟨visit, member, found⟩ := List.any_eq_true.mp checked
  refine ⟨compiled, accepted, visit, member, ?_⟩
  unfold Visit.variable? at found
  split at found
  · next node name reads =>
      have distance : compiled.distances.find? node = some 0 := by simpa using found
      obtain ⟨_, value, _, _, _, read⟩ :=
        ((Machine.trace_resolved _ compiled accepted 20 ⟨[], [], true⟩ (.still 0) (.empty none)).2.2
          visit member).2.2 node name 0 reads distance
      exact ⟨node, name, value, reads, distance, read⟩
  · cases found

/-- Each local scope around a reference that declares its name has completed a declaration of it before
the reference. -/
def Site.DeclaredBefore (site : Site) : Prop :=
  ∀ reference, site.reference? = some reference → ∀ frame ∈ site.frames.dropLast,
    reference.name.lexeme ∈ frame.declared → (reference.name.lexeme, true) ∈ frame.scope

instance (site : Site) : Decidable site.DeclaredBefore :=
  match refers : site.reference? with
  | none => .isTrue fun _ found => by rw [refers] at found; cases found
  | some reference =>
      decidable_of_iff (∀ frame ∈ site.frames.dropLast,
          reference.name.lexeme ∈ frame.declared → (reference.name.lexeme, true) ∈ frame.scope)
        ⟨fun holds other found => by
          rw [refers] at found
          cases found
          exact holds,
        fun holds => holds reference refers⟩

/-- A search by name finds the place that the table gives, if each scope that declares the name has done so.
-/
theorem World.Fits.place_byName {world : World} {rule : Site → Prop} {distances : Distances}
    {machine : Machine} {frames : Frames} {node : NodeId} {name : String}
    (fits : world.Fits rule distances.locator machine)
    (chain : world.Chain machine.heap machine.globals machine.environment frames)
    (table : distances.find? node = frames.scopes.distance? name)
    (earlier : ∀ frame ∈ frames.dropLast, name ∈ frame.declared → (name, true) ∈ frame.scope) :
    machine.place Locator.byName node name = machine.place machine.locator node name := by
  have found := chain.innermost?_eq fits.outermost fits.descends
    (fun ref names inner declares => fits.confined ref names name inner declares) earlier
    (chain.inside fits.known)
  unfold Machine.place Locator.byName
  rw [fits.located, Distances.locator, table, found, Option.filter_filter]
  cases frames.scopes.distance? name <;> simp only [Bool.and_self]

/-- The search by name finds the variables that the distances lead to. -/
theorem Visit.Placed.agrees_byName {rule : Site → Prop} {distances : Distances} {visit : Visit}
    (placed : visit.Placed rule distances.locator)
    (located : ∀ site, rule site → site.Located distances)
    (earlier : ∀ site, rule site → site.DeclaredBefore) : visit.Agrees Locator.byName := by
  obtain ⟨world, frames, _, fits, chain, obeys⟩ := placed
  have agrees (reference : Reference)
      (refers : Site.reference? ⟨visit.node, frames⟩ = some reference) :
      visit.machine.place Locator.byName reference.node reference.name.lexeme =
        visit.machine.place visit.machine.locator reference.node reference.name.lexeme :=
    fits.place_byName chain (located _ obeys reference refers).1
      (earlier _ obeys reference refers)
  unfold Visit.Agrees
  split
  · next node name same => exact agrees ⟨node, false, name⟩ (by rw [same]; rfl)
  · next node name same => exact agrees ⟨node, true, name⟩ (by rw [same]; rfl)
  · trivial

/-- If each local scope that declares the name of a reference has done so before the reference, a search
by name from the current environment outward gives the same run as the distances: the same outcome, the
same output and the same heap with any amount of fuel. -/
theorem Machine.interpret_byName (source : String) (compiled : Compiled)
    (accepted : compile source = .ok compiled)
    (earlier : ∀ site ∈ compiled.program.sites, site.DeclaredBefore) (fuel : Nat)
    (files : FileSystem) (clock : Clock) (sink : Sink) :
    let machine := Machine.start files clock sink
    let run := machine.interpret fuel compiled.program compiled.distances.locator
    machine.interpret fuel compiled.program Locator.byName =
      (run.1, run.2.relocate Locator.byName) := by
  intro machine run
  let locator := compiled.distances.locator
  have placed := machine.trace_placed fuel
    (World.first_fits_start (fun site => site ∈ compiled.program.sites) locator files clock sink)
    rfl (fun _ member => member)
  have recorded := machine.interpret_eq_trace fuel compiled.program locator locator
    fun visit member => Visit.agrees_self (placed visit member)
  have named := machine.interpret_eq_trace fuel compiled.program locator Locator.byName
    fun visit member => (placed visit member).agrees_byName (Compiled.located accepted) earlier
  rw [named]
  change _ = ((machine.interpret fuel compiled.program locator).1,
    (machine.interpret fuel compiled.program locator).2.relocate Locator.byName)
  rw [recorded]
  rfl

/-- A local variable hides a global one of the same name inside its block only. -/
theorem Machine.interpret_byName_shadowing :
    ∃ compiled, compile "let x = 'a'\nif x == 'a'\n    let x = 'b'\n    print x\nprint x\n" =
        .ok compiled ∧
      (∀ site ∈ compiled.program.sites, site.DeclaredBefore) ∧
      let machine := Machine.start ⟨[], [], true⟩ (.still 0) (.empty none)
      let run := machine.interpret 20 compiled.program compiled.distances.locator
      run.2.sink.written.data = #[98, 10, 97, 10] ∧
        machine.interpret 20 compiled.program Locator.byName =
          (run.1, run.2.relocate Locator.byName) := by
  obtain ⟨compiled, accepted, checked⟩ :=
    compile_of_check "let x = 'a'\nif x == 'a'\n    let x = 'b'\n    print x\nprint x\n"
      (fun compiled =>
        decide (∀ site ∈ compiled.program.sites, site.DeclaredBefore) &&
          ((Machine.start ⟨[], [], true⟩ (.still 0) (.empty none)).interpret 20 compiled.program
            compiled.distances.locator).2.sink.written.data == #[98, 10, 97, 10])
      (by decide +kernel)
  rw [Bool.and_eq_true, decide_eq_true_eq, beq_iff_eq] at checked
  exact ⟨compiled, accepted, checked.1, checked.2,
    Machine.interpret_byName _ compiled accepted checked.1 20 ⟨[], [], true⟩ (.still 0) (.empty none)⟩

end OffsideScript
