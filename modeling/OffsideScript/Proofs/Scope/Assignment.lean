import OffsideScript.Proofs.Scope.Completion
import OffsideScript.Proofs.Scope.Resolution

namespace OffsideScript

/-- Whether a node declares a variable that its local scope does not have yet, and the reference with the given
number assigns this variable in the initial value. -/
def Site.anticipates (site : Site) (node : NodeId) : Bool :=
  match site.node, site.frames with
  | .statement _ (.declare name (some initial)), frame :: _ :: _ =>
      (frame.scope.lookup name.lexeme).isNone &&
        initial.references.any fun reference =>
          reference.node == node && reference.assigns && reference.name.lexeme == name.lexeme
  | _, _ => false

/-- Whether a reference assigns a local variable before the variable is there. -/
def Program.anticipates (program : Program) (node : NodeId) : Bool :=
  program.sites.any (·.anticipates node)

/-- A node inside an expression, which has the frames around the expression. -/
structure Site.Within (frames : Frames) (site : Site) : Prop where
  frames : site.frames = frames
  part : ∀ context step, site.node ≠ .statement context step

/-- An expression is inside itself. -/
theorem Site.Within.expression (frames : Frames) (value : Expression) :
    Site.Within frames ⟨.expression value, frames⟩ :=
  ⟨rfl, fun _ _ same => by cases same⟩

mutual

/-- The nodes of an expression are inside of it. -/
theorem Expression.sites_within (frames : Frames) : ∀ expression : Expression,
    ∀ site ∈ expression.sites frames, site.Within frames
  | .constant _ => List.forall_mem_singleton.mpr (.expression frames _)
  | .group inner => List.forall_mem_cons.mpr ⟨.expression frames _, inner.sites_within frames⟩
  | .unary _ _ operand =>
      List.forall_mem_cons.mpr ⟨.expression frames _, operand.sites_within frames⟩
  | .binary _ _ left right => List.forall_mem_cons.mpr ⟨.expression frames _,
      List.forall_mem_append.mpr ⟨left.sites_within frames, right.sites_within frames⟩⟩
  | .logical _ _ left right => List.forall_mem_cons.mpr ⟨.expression frames _,
      List.forall_mem_append.mpr ⟨left.sites_within frames, right.sites_within frames⟩⟩
  | .conditional condition whenTrue whenFalse => List.forall_mem_cons.mpr ⟨.expression frames _,
      List.forall_mem_append.mpr ⟨List.forall_mem_append.mpr
        ⟨condition.sites_within frames, whenTrue.sites_within frames⟩,
        whenFalse.sites_within frames⟩⟩
  | .variable _ _ => List.forall_mem_singleton.mpr (.expression frames _)
  | .assign _ _ value => List.forall_mem_cons.mpr ⟨.expression frames _,
      List.forall_mem_append.mpr ⟨value.sites_within frames,
        List.forall_mem_singleton.mpr ⟨rfl, fun _ _ same => by cases same⟩⟩⟩
  | .array elements =>
      List.forall_mem_cons.mpr ⟨.expression frames _, sitesAll_within frames elements⟩
  | .map entries =>
      List.forall_mem_cons.mpr ⟨.expression frames _, sitesEntries_within frames entries⟩
  | .call callee _ arguments => List.forall_mem_cons.mpr ⟨.expression frames _,
      List.forall_mem_append.mpr ⟨callee.sites_within frames, sitesAll_within frames arguments⟩⟩
  | .index object _ position => List.forall_mem_cons.mpr ⟨.expression frames _,
      List.forall_mem_append.mpr ⟨object.sites_within frames, position.sites_within frames⟩⟩
  | .setIndex object _ position value => List.forall_mem_cons.mpr ⟨.expression frames _,
      List.forall_mem_append.mpr ⟨List.forall_mem_append.mpr
        ⟨object.sites_within frames, position.sites_within frames⟩, value.sites_within frames⟩⟩

theorem Expression.sitesAll_within (frames : Frames) : ∀ expressions : List Expression,
    ∀ site ∈ sitesAll frames expressions, site.Within frames
  | [] => fun _ member => absurd member List.not_mem_nil
  | expression :: rest => List.forall_mem_append.mpr
      ⟨expression.sites_within frames, sitesAll_within frames rest⟩

theorem Expression.sitesEntries_within (frames : Frames) :
    ∀ entries : List (Expression × Expression),
      ∀ site ∈ sitesEntries frames entries, site.Within frames
  | [] => fun _ member => absurd member List.not_mem_nil
  | (key, value) :: rest => List.forall_mem_append.mpr ⟨List.forall_mem_append.mpr
      ⟨key.sites_within frames, value.sites_within frames⟩, sitesEntries_within frames rest⟩

end

/-- A declaration with an initial value. -/
def Site.Declares (site : Site) (name : Token) (initial : Expression) : Prop :=
  ∃ context, site.node = .statement context (.declare name (some initial))

/-- The nodes of an initial value, which see the declaration before it is complete. -/
def Site.initialSites (site : Site) (name : Token) (initial : Expression) : List Site :=
  initial.sites (site.frames.bind name.lexeme false)

/-- With a declaration the nodes of its initial value are listed, and no others see a declaration before it is
complete. -/
structure Site.Grouped (sites : List Site) : Prop where
  whole : ∀ site ∈ sites, ∀ name initial, site.Declares name initial →
    ∀ part ∈ site.initialSites name initial, part ∈ sites
  settled : ∀ site ∈ sites, site.frames.Settled ∨
    ∃ declaration ∈ sites, ∃ name initial, declaration.Declares name initial ∧
      declaration.frames.Settled ∧ site ∈ declaration.initialSites name initial

namespace Site.Grouped

variable {frames : Frames} {sites others : List Site}

theorem nil : Grouped [] :=
  ⟨fun _ member => absurd member List.not_mem_nil, fun _ member => absurd member List.not_mem_nil⟩

/-- Groups of nodes stay groups side by side. -/
theorem append (left : Grouped sites) (right : Grouped others) : Grouped (sites ++ others) := by
  constructor
  · intro site member name initial declares part inside
    rcases List.mem_append.mp member with first | second
    · exact List.mem_append_left _ (left.whole site first name initial declares part inside)
    · exact List.mem_append_right _ (right.whole site second name initial declares part inside)
  · intro site member
    rcases List.mem_append.mp member with first | second
    · refine (left.settled site first).imp_right ?_
      rintro ⟨declaration, inside, rest⟩
      exact ⟨declaration, List.mem_append_left _ inside, rest⟩
    · refine (right.settled site second).imp_right ?_
      rintro ⟨declaration, inside, rest⟩
      exact ⟨declaration, List.mem_append_right _ inside, rest⟩

/-- A statement that declares nothing with an initial value needs no other nodes. -/
theorem plain (settled : frames.Settled) {context : Context} {step : Statement}
    (other : ∀ name initial, step ≠ .declare name (some initial)) (rest : Grouped sites) :
    Grouped (⟨.statement context step, frames⟩ :: sites) := by
  have alone : Grouped [⟨.statement context step, frames⟩] := by
    refine ⟨List.forall_mem_singleton.mpr ?_, List.forall_mem_singleton.mpr (.inl settled)⟩
    rintro name initial ⟨_, same⟩
    cases same
    exact absurd rfl (other name initial)
  exact alone.append rest

/-- The nodes of an expression in settled frames need no declaration. -/
theorem expression (settled : frames.Settled) (value : Expression) :
    Grouped (value.sites frames) := by
  have within := value.sites_within frames
  refine ⟨fun site member name initial declares => ?_, fun site member => .inl ?_⟩
  · obtain ⟨context, same⟩ := declares
    exact absurd same ((within site member).part context _)
  · rw [(within site member).frames]
    exact settled

/-- A declaration is grouped with its initial value. -/
theorem declaration (settled : frames.Settled) (context : Context) (name : Token)
    (initial : Expression) :
    Grouped (⟨.statement context (.declare name (some initial)), frames⟩ ::
      initial.sites (frames.bind name.lexeme false)) := by
  have within := initial.sites_within (frames.bind name.lexeme false)
  constructor
  · refine List.forall_mem_cons.mpr ⟨?_, fun site member other value declares => ?_⟩
    · rintro other value ⟨_, same⟩ part inside
      cases same
      exact List.mem_cons_of_mem _ inside
    · obtain ⟨_, same⟩ := declares
      exact absurd same ((within site member).part _ _)
  · refine List.forall_mem_cons.mpr ⟨.inl settled, fun site member => .inr ?_⟩
    exact ⟨_, List.mem_cons_self, name, initial, ⟨context, rfl⟩, settled, member⟩

end Site.Grouped

/-- A block in settled frames starts with settled ones. -/
theorem Frames.Settled.body {frames : Frames} (settled : frames.Settled) (body : List Statement) :
    Frames.Settled (Frame.ofBody body :: frames) :=
  settled.cons fun _ member => absurd member List.not_mem_nil

/-- A function in settled frames starts with settled ones. -/
theorem Frames.Settled.function {frames : Frames} (settled : frames.Settled)
    (parameters : List Token) (body : List Statement) :
    Frames.Settled (Frame.ofFunction parameters body :: frames) := by
  refine settled.cons fun entry member => ?_
  obtain ⟨_, _, rfl⟩ := (Scopes.mem_ofParameters parameters entry).mp member
  rfl

mutual

/-- The nodes of a statement are grouped. -/
theorem Statement.sites_grouped (context : Context) {frames : Frames} (settled : frames.Settled) :
    ∀ statement : Statement, Site.Grouped (statement.sites context frames)
  | .print _ value => .plain settled (fun _ _ same => by cases same) (.expression settled value)
  | .evaluate value =>
      .plain settled (fun _ _ same => by cases same) (.expression settled value)
  | .declare _ none => .plain settled (fun _ _ same => by cases same) .nil
  | .declare name (some initial) => .declaration settled context name initial
  | .branch branches =>
      .plain settled (fun _ _ same => by cases same)
        (sitesBranches_grouped context settled branches)
  | .loop condition body =>
      .plain settled (fun _ _ same => by cases same)
        ((Site.Grouped.expression settled condition).append
          (sitesAll_grouped _ (settled.body body) body))
  | .function name parameters body =>
      .plain settled (fun _ _ same => by cases same)
        (sitesAll_grouped _ ((settled.bind name.lexeme).function parameters body) body)
  | .ret _ none => .plain settled (fun _ _ same => by cases same) .nil
  | .ret _ (some value) =>
      .plain settled (fun _ _ same => by cases same) (.expression settled value)
  | .breakLoop _ => .plain settled (fun _ _ same => by cases same) .nil
  | .continueLoop _ => .plain settled (fun _ _ same => by cases same) .nil

theorem Statement.sitesAll_grouped (context : Context) {frames : Frames}
    (settled : frames.Settled) : ∀ statements : List Statement,
      Site.Grouped (sitesAll context frames statements)
  | [] => .nil
  | statement :: rest => (statement.sites_grouped context settled).append
      (sitesAll_grouped context (settled.extend statement) rest)

theorem Statement.sitesBranches_grouped (context : Context) {frames : Frames}
    (settled : frames.Settled) : ∀ branches : List (Expression × List Statement),
      Site.Grouped (sitesBranches context frames branches)
  | [] => .nil
  | (condition, body) :: rest =>
      ((Site.Grouped.expression settled condition).append
        (sitesAll_grouped context (settled.body body) body)).append
          (sitesBranches_grouped context settled rest)

end

/-- The nodes of a program are grouped. -/
theorem Program.sites_grouped (program : Program) : Site.Grouped program.sites :=
  Statement.sitesAll_grouped ⟨false, false⟩ (by simp [Frames.Settled]) program

/-- The assignments of an initial value are among its nodes. -/
theorem Expression.mem_references {frames : Frames} {initial : Expression} {reference : Reference} :
    reference ∈ initial.references ↔
      ∃ site ∈ initial.sites frames, site.reference? = some reference := by
  rw [← initial.sites_references frames]
  exact List.mem_filterMap

/-- A node anticipates a reference if it declares a new variable of a local scope, which the reference assigns
in the initial value. -/
theorem Site.anticipates_iff {site : Site} {node : NodeId} :
    site.anticipates node = true ↔ ∃ name initial, site.Declares name initial ∧
      (∃ frame next outer, site.frames = frame :: next :: outer ∧
        frame.scope.lookup name.lexeme = none) ∧
      ∃ reference ∈ initial.references, reference.node = node ∧ reference.assigns = true ∧
        reference.name.lexeme = name.lexeme := by
  unfold Site.anticipates
  split
  · next context name initial frame next outer same frames =>
      rw [Bool.and_eq_true, Option.isNone_iff_eq_none, List.any_eq_true]
      constructor
      · rintro ⟨absent, reference, member, meets⟩
        refine ⟨name, initial, ⟨context, same⟩, ⟨frame, next, outer, frames, absent⟩, reference,
          member, ?_⟩
        simpa [and_assoc] using meets
      · rintro ⟨other, value, ⟨_, declares⟩, ⟨inner, _, _, around, absent⟩, reference, member,
          meets⟩
        cases same.symm.trans declares
        cases frames.symm.trans around
        exact ⟨absent, reference, member, by simpa [and_assoc] using meets⟩
  · next other =>
      refine ⟨fun impossible => absurd impossible Bool.false_ne_true, ?_⟩
      rintro ⟨name, initial, ⟨context, same⟩, ⟨frame, next, outer, frames, _⟩, _⟩
      exact absurd frames (other context name initial frame next outer same)

/-- A scope is declaring the name of the initial value, and what it was declaring before. -/
theorem Scopes.isDeclaring_bind {scope : Scope} {outer : Scopes} {other name : String} :
    isDeclaring name (bind other false (scope :: outer)) = true ↔
      name = other ∨ scope.lookup name = some false := by
  rw [bind, isDeclaring, beq_iff_eq, List.lookup_cons]
  by_cases same : name = other
  · simp [same]
  · simp [same, beq_eq_false_iff_ne.mpr same]

/-- In settled frames a name is unknown to the innermost scope exactly if it has no complete declaration. -/
theorem Frames.Settled.lookup_eq_none {frame : Frame} {outer : Frames}
    (settled : Frames.Settled (frame :: outer)) {name : String} :
    frame.scope.lookup name = none ↔ (name, true) ∉ frame.scope := by
  constructor
  · intro absent member
    have known := Scope.lookup_isSome member
    rw [absent] at known
    cases known
  · intro incomplete
    cases found : frame.scope.lookup name with
    | none => rfl
    | some complete =>
        have member := Scope.mem_of_lookup found
        have whole : complete = true := settled frame List.mem_cons_self _ member
        rw [whole] at member
        exact absurd member incomplete

/-- An assignment comes too early exactly if its scope is declaring the variable and has no complete
declaration of it. Only in an initial value is a declaration incomplete, and there it is the innermost one. -/
theorem Program.anticipates_iff {program : Program}
    (distinct : (program.references.map Reference.node).Nodup) {frames : Frames} {node : NodeId}
    {name : Token} (listed : ⟨.target node name, frames⟩ ∈ program.sites)
    (around : 2 ≤ frames.length) :
    program.anticipates node = true ↔
      frames.scopes.isDeclaring name.lexeme = true ∧ ¬frames.scopes.Completes name.lexeme := by
  have grouped := program.sites_grouped
  rw [anticipates, List.any_eq_true]
  constructor
  · rintro ⟨declaration, inside, early⟩
    obtain ⟨target, initial, declares, ⟨frame, next, outer, shape, absent⟩, reference, member,
      sameNode, _, sameName⟩ := Site.anticipates_iff.mp early
    obtain ⟨part, partInside, refers⟩ := Expression.mem_references.mp member
    have partListed := grouped.whole declaration inside target initial declares part partInside
    rw [← program.sites_references] at distinct
    have same : part = ⟨.target node name, frames⟩ :=
      Site.eq_of_node distinct listed partListed rfl refers sameNode
    subst same
    cases refers
    have bound : frames = declaration.frames.bind target.lexeme false :=
      (initial.sites_within _ _ partInside).frames
    rw [bound, shape, Frames.scopes_bind, Frames.scopes_cons, Scopes.isDeclaring_bind,
      Scopes.completes_bind]
    refine ⟨.inl sameName, ?_⟩
    rintro (⟨_, impossible⟩ | complete)
    · cases impossible
    · have known : (frame.scope.lookup name.lexeme).isSome = true := Scope.lookup_isSome complete
      rw [sameName, absent] at known
      cases known
  · rintro ⟨declaring, incomplete⟩
    rcases grouped.settled _ listed with settled | ⟨declaration, inside, target, initial,
      declares, settled, member⟩
    · rw [Frames.isDeclaring_of_settled settled] at declaring
      cases declaring
    · have bound : frames = declaration.frames.bind target.lexeme false :=
        (initial.sites_within _ _ member).frames
      rcases shape : declaration.frames with _ | ⟨frame, _ | ⟨next, outer⟩⟩
      · rw [bound, shape] at around
        simp [Frames.bind] at around
      · rw [bound, shape] at around
        simp [Frames.bind] at around
      · rw [shape] at bound settled
        rw [bound, Frames.scopes_bind, Frames.scopes_cons] at declaring incomplete
        have sameName : name.lexeme = target.lexeme := by
          refine (Scopes.isDeclaring_bind.mp declaring).resolve_right fun found => ?_
          cases settled frame List.mem_cons_self _ (Scope.mem_of_lookup found)
        have absent : frame.scope.lookup target.lexeme = none := by
          rw [settled.lookup_eq_none, ← sameName]
          exact fun complete => incomplete ((Scopes.completes_bind _ _ _ _).mpr (.inr complete))
        refine ⟨declaration, inside, Site.anticipates_iff.mpr ⟨target, initial, declares,
          ⟨frame, next, outer, shape, absent⟩, ⟨node, true, name⟩, ?_, rfl, rfl, sameName⟩⟩
        exact Expression.mem_references.mpr ⟨_, member, rfl⟩

namespace Frames

variable {frames : Frames} {name : String} {hops : Nat}

/-- A name that has a distance is looked up inside a local scope. -/
theorem two_le_length (found : frames.scopes.distance? name = some hops) : 2 ≤ frames.length := by
  rcases frames with _ | ⟨frame, _ | ⟨next, outer⟩⟩
  · cases found
  · cases found
  · simp

/-- What the innermost scope is declaring is not further away. -/
theorem hops_of_isDeclaring (declaring : frames.scopes.isDeclaring name = true)
    (found : frames.scopes.distance? name = some hops) : hops = 0 := by
  rcases frames with _ | ⟨frame, _ | ⟨next, outer⟩⟩
  · cases found
  · cases found
  · have known : frame.scope.lookup name = some false := beq_iff_eq.mp declaring
    rw [World.Chain.distance?_cons (List.cons_ne_nil _ _), known] at found
    cases found
    rfl

end Frames

namespace World.Chain

variable {world : World} {heap : Heap} {globals ref : EnvironmentRef} {frames : Frames}

/-- A local environment is not the global one. -/
theorem ne_globals (chain : world.Chain heap globals ref frames) (around : 2 ≤ frames.length) :
    ref ≠ globals := by
  cases chain with
  | root => simp at around
  | child inner => exact inner

/-- A local environment binds the names that are complete in its scope. -/
theorem binds_of_completes (chain : world.Chain heap globals ref frames) {name : String}
    (completes : frames.scopes.Completes name) : heap.binds ref name = true := by
  cases chain with
  | root bound => exact bound name completes
  | child _ _ _ bound => exact bound name completes

end World.Chain

/-- At an assignment with a distance, the environment at this distance is local and binds the variable, unless
the assignment comes too early. -/
theorem Visit.Placed.target_binds {program : Program} {distances : Distances} {visit : Visit}
    {node : NodeId} {name : Token} {hops : Nat}
    (placed : visit.Placed (· ∈ program.sites) distances.locator) (tidy : visit.Tidy)
    (located : ∀ site ∈ program.sites, site.Located distances)
    (distinct : (program.references.map Reference.node).Nodup)
    (targets : visit.node = .target node name) (found : distances.find? node = some hops) :
    ∃ ref, visit.machine.heap.ancestor? visit.machine.environment hops = some ref ∧
      ref ≠ visit.machine.globals ∧
      (visit.machine.heap.binds ref name.lexeme = true ↔ program.anticipates node = false) ∧
      (program.anticipates node = true → hops = 0) := by
  obtain ⟨world, frames, shape, fits, chain, listed⟩ := placed
  rw [targets] at listed
  have table := (located _ listed ⟨node, true, name⟩ rfl).1
  have distance : frames.scopes.distance? name.lexeme = some hops := table.symm.trans found
  have around := Frames.two_le_length distance
  have early := program.anticipates_iff distinct listed around
  cases declaring : frames.scopes.isDeclaring name.lexeme with
  | false =>
      obtain ⟨ref, reached, inner, bound⟩ := chain.binds_of_distance? declaring distance
      have late : program.anticipates node = false := by
        rw [← Bool.not_eq_true, early, declaring]
        exact fun both => absurd both.1 Bool.false_ne_true
      exact ⟨ref, reached, inner, iff_of_true bound late, fun soon => by rw [late] at soon; cases soon⟩
  | true =>
      have here : hops = 0 := Frames.hops_of_isDeclaring declaring distance
      subst here
      have inner := chain.ne_globals around
      rw [declaring] at early
      refine ⟨visit.machine.environment, rfl, inner, ⟨fun bound => ?_, fun late => ?_⟩, fun _ => rfl⟩
      · rw [← Bool.not_eq_true, early]
        have complete := tidy inner name.lexeme bound
        rw [← shape] at complete
        exact fun both => both.2 complete
      · apply chain.binds_of_completes
        rw [← Bool.not_eq_true, early] at late
        by_contra incomplete
        exact late ⟨rfl, incomplete⟩

namespace Distances

variable {distances : Distances} {heap : Heap} {current globals : EnvironmentRef} {node : NodeId}
  {name : String}

/-- With a distance a variable is sought that far out. -/
theorem locator_of_some {hops : Nat} (found : distances.find? node = some hops) :
    distances.locator heap current globals node name = heap.ancestor? current hops := by
  rw [locator, found]

/-- Without a distance a variable is sought in the globals. -/
theorem locator_of_none (absent : distances.find? node = none) :
    distances.locator heap current globals node name = some globals := by
  rw [locator, absent]

end Distances

/-- An assignment changes the environment that the locator finds if this binds the variable. -/
theorem Exec.assign_of_located {machine : Machine} {node : NodeId} {name : Token}
    {ref : EnvironmentRef} (value : Value)
    (found : machine.locator machine.heap machine.environment machine.globals node name.lexeme =
      some ref) :
    assign node name value machine =
      if machine.heap.binds ref name.lexeme then
        .ok () (machine.mapHeap (·.define ref name.lexeme value))
      else fail name (.undefinedVariable name.lexeme) machine := by
  rw [assign_eq, Machine.place, found]
  by_cases bound : machine.heap.binds ref name.lexeme <;> simp [Option.filter, bound]

/-- The assignment that a visit comes to. -/
def Visit.target? (visit : Visit) : Option (NodeId × Token) :=
  match visit.node with
  | .target node name => some (node, name)
  | _ => none

/-- The target of a visit is the assignment that it comes to. -/
theorem Visit.target?_eq_some {visit : Visit} {node : NodeId} {name : Token} :
    visit.target? = some (node, name) ↔ visit.node = .target node name := by
  unfold target?
  cases visit.node <;> simp

namespace Machine

/-- Whatever an accepted source text does on a machine that starts, the environment at the distance of an
assignment exists, is local, and binds the variable, so that the assignment succeeds, unless it stands in the
initial value of the first declaration of the variable in its scope. There it always fails, since the variable
is not defined yet. An assignment without a distance fails only if no global variable has its name. -/
theorem trace_assigns (source : String) (compiled : Compiled)
    (accepted : compile source = .ok compiled) (fuel : Nat) (files : FileSystem) (clock : Clock)
    (sink : Sink) :
    let machine := Machine.start files clock sink
    let locator := compiled.distances.locator
    let run := machine.trace fuel compiled.program locator
    machine.interpret fuel compiled.program locator = (run.1, run.2.machine.relocate locator) ∧
    ∀ visit ∈ run.2.visits, ∀ node name, visit.node = .target node name →
      (∀ hops, compiled.distances.find? node = some hops →
        ∃ ref, visit.machine.heap.ancestor? visit.machine.environment hops = some ref ∧
          ref ≠ visit.machine.globals ∧
          (visit.machine.heap.binds ref name.lexeme = true ↔
            compiled.program.anticipates node = false) ∧
          (compiled.program.anticipates node = true → hops = 0) ∧
          ∀ value, Exec.assign node name value visit.machine =
            if compiled.program.anticipates node then
              Exec.fail name (.undefinedVariable name.lexeme) visit.machine
            else .ok () (visit.machine.mapHeap (·.define ref name.lexeme value))) ∧
      (compiled.distances.find? node = none →
        ∀ value, Exec.assign node name value visit.machine =
          if visit.machine.heap.binds visit.machine.globals name.lexeme then
            .ok () (visit.machine.mapHeap (·.define visit.machine.globals name.lexeme value))
          else Exec.fail name (.undefinedVariable name.lexeme) visit.machine) := by
  intro machine locator run
  have fits := World.first_fits_start (fun site => site ∈ compiled.program.sites) locator files
    clock sink
  have placed := machine.trace_placed fuel fits rfl (fun _ member => member)
  have tidy := machine.trace_tidy compiled.program fuel fits rfl
  have distinct : (compiled.program.references.map Reference.node).Nodup := by
    obtain ⟨tokens, _, read, _⟩ := compile_eq_ok accepted
    have numbered := Program.ofTokens_nodup tokens
    rwa [read] at numbered
  refine ⟨machine.interpret_eq_trace fuel compiled.program locator locator fun visit member =>
    Visit.agrees_self (placed visit member), fun visit member node name targets => ?_⟩
  have here := placed visit member
  have located : visit.machine.locator = locator := by
    obtain ⟨_, _, _, fits, _⟩ := here
    exact fits.located
  constructor
  · intro hops found
    obtain ⟨ref, reached, inner, bound, near⟩ :=
      here.target_binds (tidy visit member) (Compiled.located accepted) distinct targets found
    refine ⟨ref, reached, inner, bound, near, fun value => ?_⟩
    have place : visit.machine.locator visit.machine.heap visit.machine.environment
        visit.machine.globals node name.lexeme = some ref := by
      rw [located]
      exact (Distances.locator_of_some found).trans reached
    rw [Exec.assign_of_located value place]
    cases early : compiled.program.anticipates node with
    | true =>
        have unbound : ¬visit.machine.heap.binds ref name.lexeme = true := by simp [bound, early]
        rw [if_neg unbound, if_pos rfl]
    | false =>
        rw [if_pos (bound.mpr early), if_neg Bool.false_ne_true]
  · intro absent value
    have place : visit.machine.locator visit.machine.heap visit.machine.environment
        visit.machine.globals node name.lexeme = some visit.machine.globals := by
      rw [located]
      exact Distances.locator_of_none absent
    exact Exec.assign_of_located value place

/-- A second declaration of a variable in the same block assigns the first one in its initial value. -/
theorem trace_assigns_again :
    ∃ compiled, compile "if true\n    let x = 1\n    let x = (x = 2)\n" = .ok compiled ∧
      ∃ visit ∈ ((Machine.start ⟨[], [], true⟩ (.still 0) (.empty none)).trace 20 compiled.program
          compiled.distances.locator).2.visits,
        ∃ node name, visit.node = .target node name ∧
          visit.scopes.isDeclaring name.lexeme = true ∧
          compiled.distances.find? node = some 0 ∧ compiled.program.anticipates node = false ∧
          ∃ ref, ref ≠ visit.machine.globals ∧ ∀ value,
            Exec.assign node name value visit.machine =
              .ok () (visit.machine.mapHeap (·.define ref name.lexeme value)) := by
  obtain ⟨compiled, accepted, checked⟩ :=
    compile_of_check "if true\n    let x = 1\n    let x = (x = 2)\n"
      (fun compiled =>
        ((Machine.start ⟨[], [], true⟩ (.still 0) (.empty none)).trace 20 compiled.program
          compiled.distances.locator).2.visits.any fun visit =>
            visit.target?.any fun target =>
              visit.scopes.isDeclaring target.2.lexeme &&
                compiled.distances.find? target.1 == some 0 &&
                !compiled.program.anticipates target.1)
      (by decide +kernel)
  obtain ⟨visit, member, assigns⟩ := List.any_eq_true.mp checked
  obtain ⟨⟨node, name⟩, targets, conditions⟩ := (Option.any_eq_true _ _).mp assigns
  simp only [Bool.and_eq_true, beq_iff_eq, Bool.not_eq_true'] at conditions
  obtain ⟨⟨declaring, found⟩, late⟩ := conditions
  have here := Visit.target?_eq_some.mp targets
  obtain ⟨ref, _, inner, _, _, assigned⟩ :=
    ((trace_assigns _ compiled accepted 20 ⟨[], [], true⟩ (.still 0) (.empty none)).2 visit member node
      name here).1 0 found
  refine ⟨compiled, accepted, visit, member, node, name, here, declaring, found, late, ref, inner,
    fun value => ?_⟩
  rw [assigned value, late, if_neg Bool.false_ne_true]

/-- The first declaration of a variable in a block may not assign it in its initial value, although the
assignment is accepted and has a distance: its environment does not bind the variable yet. -/
theorem run_assigns_too_early :
    let source := "if true\n    let x = (x = 1)\n    print x\n"
    let machine := Machine.start ⟨[], [], true⟩ (.still 0) (.empty none)
    (∃ compiled, compile source = .ok compiled ∧
      ∃ visit ∈ (machine.trace 20 compiled.program compiled.distances.locator).2.visits,
        ∃ node name, visit.node = .target node name ∧ compiled.distances.find? node = some 0 ∧
          visit.machine.heap.binds visit.machine.environment name.lexeme = false) ∧
      (machine.run 20 source).1 = some (.failed ⟨2, .lexeme "x", .undefinedVariable "x"⟩) ∧
      (machine.run 20 source).2.sink.written = .empty := by
  intro source machine
  refine ⟨?_, by decide +kernel, by decide +kernel⟩
  obtain ⟨compiled, accepted, checked⟩ := compile_of_check source
    (fun compiled =>
      (machine.trace 20 compiled.program compiled.distances.locator).2.visits.any fun visit =>
        visit.target?.any fun target =>
          compiled.distances.find? target.1 == some 0 &&
            !visit.machine.heap.binds visit.machine.environment target.2.lexeme)
    (by decide +kernel)
  obtain ⟨visit, member, assigns⟩ := List.any_eq_true.mp checked
  obtain ⟨⟨node, name⟩, targets, conditions⟩ := (Option.any_eq_true _ _).mp assigns
  simp only [Bool.and_eq_true, beq_iff_eq, Bool.not_eq_true'] at conditions
  exact ⟨compiled, accepted, visit, member, node, name, Visit.target?_eq_some.mp targets,
    conditions.1, conditions.2⟩

end Machine

end OffsideScript
