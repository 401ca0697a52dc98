import OffsideScript.Proofs.Scope.Invariant

namespace OffsideScript

/-- The names whose declaration is complete in the innermost scope. -/
def Scopes.Completes (scopes : Scopes) (name : String) : Prop :=
  (name, true) ∈ scopes.headD []

namespace Scopes

/-- A name is complete if its new declaration is, or if it was before. -/
theorem completes_bind (scopes : Scopes) (other name : String) (complete : Bool) :
    (scopes.bind other complete).Completes name ↔
      (name = other ∧ complete = true) ∨ scopes.Completes name := by
  cases scopes <;> simp [Completes, bind, eq_comm]

end Scopes

namespace Surroundings

/-- All texts may run everywhere, and all ends of statements and all values are possible. -/
def terrain : Terrain Surroundings where
  surroundings := id
  bind := bind
  looping := looping
  surroundings_bind _ _ _ := rfl
  surroundings_looping _ := rfl
  suits _ _ := True
  parts _ _ := trivial
  Called _ := True
  Looped _ := True
  called_bind _ := trivial
  looped_bind _ := trivial
  called_looping _ := trivial
  Good _ := True
  plain _ _ := trivial

/-- Any statement may leave where it is. -/
theorem terrain_mayLeave (place : Surroundings) (step : Statement) :
    terrain.MayLeave place step := by
  cases step <;> trivial

end Surroundings

/-- The current environment, if it is local, binds only names whose declaration is complete. -/
def Machine.Tidy (scopes : Scopes) (machine : Machine) : Prop :=
  machine.environment ≠ machine.globals → ∀ name,
    machine.heap.binds machine.environment name = true → scopes.Completes name

/-- A visit to a tidy machine. -/
def Visit.Tidy (visit : Visit) : Prop :=
  visit.machine.Tidy visit.scopes

/-- A recorded run is tidy where it is and was so at all its visits. The body of each function starts in the
scope of its parameters. -/
structure Tracer.Tidy (scopes : Scopes) (tracer : Tracer) : Prop where
  tame : tracer.machine.Tame
  known : tracer.machine.globals.index < tracer.machine.heap.environments.size
  inside : tracer.machine.environment.index < tracer.machine.heap.environments.size
  names : tracer.machine.Tidy scopes
  housed : tracer.homes.length = tracer.machine.heap.functions.size
  homes : ∀ ref closure, tracer.machine.heap.closure? ref = some closure →
    ∃ outer, tracer.homes[ref.index]? = some (Scopes.ofParameters closure.parameters :: outer)
  visits : ∀ visit ∈ tracer.visits, visit.Tidy

/-- More names may be complete. -/
theorem Tracer.Tidy.mono {scopes after : Scopes} {tracer : Tracer} (tidy : tracer.Tidy scopes)
    (more : ∀ name, scopes.Completes name → after.Completes name) : tracer.Tidy after :=
  { tidy with names := fun inner name bound => more name (tidy.names inner name bound) }

/-- A machine comes back to the same environment, and no other environment gets a name. -/
structure Machine.Spares (before after : Machine) : Prop where
  environment : after.environment = before.environment
  globals : after.globals = before.globals
  size : before.heap.environments.size ≤ after.heap.environments.size
  names : ∀ ref name, ref.index < before.heap.environments.size → ref ≠ before.environment →
    after.heap.binds ref name = true → before.heap.binds ref name = true

theorem Machine.Spares.refl (machine : Machine) : machine.Spares machine :=
  ⟨rfl, rfl, Nat.le_refl _, fun _ _ _ _ bound => bound⟩

theorem Machine.Spares.trans {first second third : Machine} (left : first.Spares second)
    (right : second.Spares third) : first.Spares third := by
  refine ⟨right.environment.trans left.environment, right.globals.trans left.globals,
    Nat.le_trans left.size right.size, fun ref name inside apart bound => ?_⟩
  refine left.names ref name inside apart (right.names ref name ?_ ?_ bound)
  · exact Nat.lt_of_lt_of_le inside left.size
  · rw [left.environment]
    exact apart

/-- An action adds at most the given names to the current environment and none to others. -/
structure Machine.Adds (names : List String) (before after : Machine) : Prop where
  environment : after.environment = before.environment
  globals : after.globals = before.globals
  library : after.library = before.library
  size : after.heap.environments.size = before.heap.environments.size
  functions : after.heap.functions = before.heap.functions
  binds : ∀ ref name, after.heap.binds ref name = true →
    before.heap.binds ref name = true ∨ ref = before.environment ∧ name ∈ names

namespace Machine.Adds

variable {names : List String} {before after : Machine}

/-- An action that keeps the scoping adds no names. -/
theorem of_sameScoping (same : before.SameScoping after) : before.Adds [] after := by
  refine ⟨same.environment, same.globals, same.library, congrArg Array.size same.environments,
    same.functions, fun ref name bound => .inl ?_⟩
  rw [Heap.binds, Heap.get?, ← same.environments]
  exact bound

/-- Names are added to the current environment only. -/
theorem spares (adds : before.Adds names after) : before.Spares after :=
  ⟨adds.environment, adds.globals, Nat.le_of_eq adds.size.symm, fun ref name _ apart bound =>
    (adds.binds ref name bound).resolve_right fun both => apart both.1⟩

/-- A run stays tidy if the names that are added are complete. -/
theorem tidy {scopes later : Scopes} {tracer : Tracer} {machine : Machine}
    (adds : tracer.machine.Adds names machine) (tidy : tracer.Tidy scopes)
    (more : ∀ name, scopes.Completes name → later.Completes name)
    (declared : ∀ name ∈ names, later.Completes name) :
    Tracer.Tidy later { tracer with machine } := by
  refine ⟨?_, ?_, ?_, ?_, ?_, ?_, tidy.visits⟩
  · intro slot builtin found
    rw [adds.library] at found
    exact tidy.tame slot builtin found
  · rw [adds.globals, adds.size]
    exact tidy.known
  · rw [adds.environment, adds.size]
    exact tidy.inside
  · intro inner name bound
    change machine.environment ≠ machine.globals at inner
    change machine.heap.binds machine.environment name = true at bound
    rw [adds.environment, adds.globals] at inner
    rw [adds.environment] at bound
    rcases adds.binds _ name bound with old | ⟨_, new⟩
    · exact more name (tidy.names inner name old)
    · exact declared name new
  · rw [adds.functions]
    exact tidy.housed
  · intro ref closure found
    rw [Heap.closure?, adds.functions] at found
    exact tidy.homes ref closure found

end Machine.Adds

/-- A run stays tidy if the scoping is the same. -/
theorem Tracer.Tidy.steady {scopes : Scopes} {tracer : Tracer} {machine : Machine}
    (tidy : tracer.Tidy scopes) (same : tracer.machine.SameScoping machine) :
    Tracer.Tidy scopes { tracer with machine } :=
  (Machine.Adds.of_sameScoping same).tidy tidy (fun _ => id) (by simp)

/-- The same scoping spares all environments. -/
theorem Machine.SameScoping.spares {before after : Machine} (same : before.SameScoping after) :
    before.Spares after :=
  (Machine.Adds.of_sameScoping same).spares

namespace Traced

variable {α β : Type} {scopes : Scopes} {place : Surroundings} {post : α → Surroundings → Prop}
  {tracer : Tracer}

section Entered

variable (bindings : Bindings) (parent : EnvironmentRef)

/-- Entering a scope makes one environment. -/
theorem size_entered (machine : Machine) :
    (entered bindings parent machine).heap.environments.size =
      machine.heap.environments.size + 1 :=
  machine.heap.newEnvironment_size _

/-- The environments that were there keep their names. -/
theorem binds_entered {machine : Machine} {ref : EnvironmentRef}
    (old : ref.index < machine.heap.environments.size) (name : String) :
    (entered bindings parent machine).heap.binds ref name = machine.heap.binds ref name := by
  have apart : ref ≠ (machine.heap.newEnvironment ⟨bindings, some parent⟩).1 := by
    rintro rfl
    exact Nat.lt_irrefl _ old
  change ((machine.heap.newEnvironment ⟨bindings, some parent⟩).2.get? ref name).isSome = _
  rw [machine.heap.get?_newEnvironment, if_neg apart]
  rfl

/-- A new environment has its bindings only. -/
theorem tidy_entered {inner : Scopes} (tidy : tracer.Tidy scopes)
    (own : ∀ name, (bindings.get? name).isSome = true → inner.Completes name) :
    Tracer.Tidy inner { tracer with machine := entered bindings parent tracer.machine } := by
  let heap := tracer.machine.heap
  have size := size_entered bindings parent tracer.machine
  refine ⟨tidy.tame, ?_, ?_, fun _ name bound => own name ?_, tidy.housed, tidy.homes,
    tidy.visits⟩
  · rw [size]
    exact Nat.lt_succ_of_lt tidy.known
  · rw [size]
    exact Nat.lt_succ_self _
  · have fresh : (heap.newEnvironment ⟨bindings, some parent⟩).2.get?
        ⟨heap.environments.size⟩ name = bindings.get? name :=
      (heap.get?_newEnvironment _ _ name).trans (if_pos rfl)
    rw [← fresh]
    exact bound

variable {bindings parent}

/-- What happens in a new environment gives no names to those that were there before. -/
theorem binds_of_spares_entered {machine next : Machine}
    (spares : (entered bindings parent machine).Spares next) {ref : EnvironmentRef} {name : String}
    (old : ref.index < machine.heap.environments.size) (bound : next.heap.binds ref name = true) :
    machine.heap.binds ref name = true := by
  have inside : ref.index < (entered bindings parent machine).heap.environments.size := by
    rw [size_entered]
    exact Nat.lt_succ_of_lt old
  have apart : ref ≠ (entered bindings parent machine).environment := by
    rintro rfl
    exact Nat.lt_irrefl _ old
  rw [← binds_entered bindings parent old name]
  exact spares.names ref name inside apart bound

end Entered

/-- How a recorded action ends that keeps the run tidy. If it succeeds, it ends at a place that is allowed with its
result. -/
def EndsTidy (tracer : Tracer) (post : α → Surroundings → Prop) :
    EStateM.Result Halt Tracer α → Prop
  | .ok value next => ∃ there : Surroundings, next.Tidy there.scopes ∧
      tracer.machine.Spares next.machine ∧ post value there
  | .error _ next => ∀ visit ∈ next.visits, visit.Tidy

/-- A run that goes on from a later point ends tidily if it does from there. -/
theorem EndsTidy.following {middle : Tracer} {result : EStateM.Result Halt Tracer α}
    (spares : tracer.machine.Spares middle.machine) (ends : EndsTidy middle post result) :
    EndsTidy tracer post result := by
  cases result with
  | ok value next =>
      obtain ⟨there, tidy, further, allowed⟩ := ends
      exact ⟨there, tidy, spares.trans further, allowed⟩
  | error halt next => exact ends

/-- All visits of a run that ends tidily are tidy. -/
theorem EndsTidy.visits {result : EStateM.Result Halt Tracer α}
    (ends : EndsTidy tracer post result) : ∀ visit ∈ (finalState result).visits, visit.Tidy := by
  cases result with
  | ok value next =>
      obtain ⟨there, tidy, _⟩ := ends
      exact tidy.visits
  | error halt next => exact ends

/-- An action leads from anywhere that is tidy at a place to where it is allowed. -/
def KeepsTidy (place : Surroundings) (action : Traced α) (post : α → Surroundings → Prop) : Prop :=
  ∀ tracer : Tracer, tracer.Tidy place.scopes → EndsTidy tracer post (action tracer)

namespace KeepsTidy

/-- Tidy actions are tidy one after another. -/
theorem bind {action : Traced α} {following : α → Traced β} {last : β → Surroundings → Prop}
    (first : KeepsTidy place action post)
    (second : ∀ value there, post value there → KeepsTidy there (following value) last) :
    KeepsTidy place (action >>= following) last := by
  intro tracer tidy
  have before := first tracer tidy
  cases ran : action tracer with
  | ok value between =>
      rw [ran] at before
      rw [bind_of_ok ran]
      obtain ⟨there, reached, spares, allowed⟩ := before
      exact (second value there allowed between reached).following spares
  | error halt between =>
      rw [ran] at before
      rw [bind_of_error ran]
      exact before

theorem pure {value : α} (allowed : post value place) : KeepsTidy place (pure value) post :=
  fun tracer tidy => ⟨place, tidy, .refl tracer.machine, allowed⟩

/-- More may be allowed of a tidy action. -/
theorem mono {action : Traced α} {last : α → Surroundings → Prop}
    (kept : KeepsTidy place action post)
    (implies : ∀ value there, post value there → last value there) :
    KeepsTidy place action last := by
  rw [← bind_pure action]
  exact kept.bind fun value there holds => .pure (implies value there holds)

/-- Any halt is tidy. -/
theorem throw (halt : Halt) : KeepsTidy place (throw halt : Traced α) post :=
  fun _ tidy => tidy.visits

/-- A visit is tidy where the run is. -/
theorem visit (node : Site.Node) :
    KeepsTidy place (visit place.scopes node) fun _ there => there = place := by
  intro tracer tidy
  refine ⟨place, { tidy with visits := ?_ }, .refl tracer.machine, rfl⟩
  exact List.forall_mem_cons.mpr ⟨tidy.names, tidy.visits⟩

/-- An action on the machine may add names that are complete afterwards. -/
theorem lift {action : Exec α} (there : Surroundings) (names : List String)
    (adds : ∀ machine : Machine, machine.Tame → machine.Adds names (finalState (action machine)))
    (more : ∀ name, place.scopes.Completes name → there.scopes.Completes name)
    (declared : ∀ name ∈ names, there.scopes.Completes name)
    (allowed : ∀ machine value after, action machine = .ok value after → post value there) :
    KeepsTidy place (Traced.lift action) post := by
  intro tracer tidy
  have added := adds tracer.machine tidy.tame
  unfold Traced.lift
  cases ran : action tracer.machine with
  | ok value machine =>
      rw [ran] at added
      exact ⟨there, added.tidy tidy more declared, added.spares, allowed _ value machine ran⟩
  | error halt machine => exact tidy.visits

/-- An action that keeps the scoping is tidy. -/
theorem steady {action : Exec α}
    (same : ∀ machine : Machine, machine.Tame →
      machine.SameScoping (finalState (action machine)))
    (allowed : ∀ machine value after, action machine = .ok value after → post value place) :
    KeepsTidy place (Traced.lift action) post :=
  lift place [] (fun machine tame => .of_sameScoping (same machine tame)) (fun _ => id) (by simp)
    allowed

/-- Reading a variable is tidy. -/
theorem read (node : NodeId) (name : Token) :
    KeepsTidy place (Traced.lift (Exec.read node name)) fun _ there => there = place := by
  refine steady (fun machine _ => ?_) fun _ _ _ _ => rfl
  rw [Exec.read_eq]
  cases (machine.place machine.locator node name.lexeme).bind
    (machine.heap.get? · name.lexeme) <;> exact .refl machine

/-- An assignment binds no new name. -/
theorem assign (node : NodeId) (name : Token) (value : Value) :
    KeepsTidy place (Traced.lift (Exec.assign node name value)) fun _ there => there = place := by
  refine lift place [] (fun machine _ => ?_) (fun _ => id) (by simp) fun _ _ _ _ => rfl
  rw [Exec.assign_eq]
  cases found : machine.place machine.locator node name.lexeme with
  | none => exact .of_sameScoping (.refl machine)
  | some ref =>
      have bound : machine.heap.binds ref name.lexeme = true :=
        (Option.filter_eq_some_iff.mp found).2
      refine ⟨rfl, rfl, rfl, machine.heap.define_size ref name.lexeme value, rfl,
        fun other sought binds => .inl ?_⟩
      rcases (machine.heap.binds_define ref other name.lexeme sought value).mp binds with
        ⟨rfl, rfl, _⟩ | old
      · exact bound
      · exact old

/-- A definition completes its name. -/
theorem define (name : String) (value : Value) :
    KeepsTidy place (Traced.lift (Exec.define name value))
      fun _ there => there = place.bind name true := by
  refine lift (place.bind name true) [name] (fun machine _ => ?_)
    (fun other old => (Scopes.completes_bind _ _ _ _).mpr (.inr old)) ?_ fun _ _ _ _ => rfl
  · refine ⟨rfl, rfl, rfl, machine.heap.define_size machine.environment name value, rfl,
      fun other sought binds => ?_⟩
    rcases (machine.heap.binds_define machine.environment other name sought value).mp binds with
      ⟨here, rfl, _⟩ | old
    · exact .inr ⟨here, List.mem_singleton.mpr rfl⟩
    · exact .inl old
  · intro other new
    exact (Scopes.completes_bind _ _ _ _).mpr (.inl ⟨List.mem_singleton.mp new, rfl⟩)

/-- The body of a new function starts in the scope of its parameters. -/
theorem function (name : Token) (parameters : List Token) (body : List Statement) :
    KeepsTidy place
      (do let value ← Traced.perform place (.newFunction name parameters body)
          Traced.lift (Exec.define name.lexeme value))
      fun _ there => there = place.bind name.lexeme true := by
  intro tracer tidy
  let machine := tracer.machine
  let closure : Closure := ⟨name, parameters, body, machine.environment⟩
  let outer := place.scopes.bind name.lexeme true
  let housed : Tracer :=
    { tracer with
      machine := machine.mapHeap fun heap => (heap.newFunction closure).2
      homes := tracer.homes ++ [Scopes.ofParameters parameters :: outer] }
  have made : housed.Tidy place.scopes := by
    refine ⟨tidy.tame, tidy.known, tidy.inside, tidy.names, ?_, ?_, tidy.visits⟩
    · change (tracer.homes ++ [_]).length = (machine.heap.functions.push closure).size
      rw [List.length_append, Array.size_push, tidy.housed]
      rfl
    · intro ref other found
      change (machine.heap.functions.push closure)[ref.index]? = some other at found
      rw [Array.getElem?_push] at found
      by_cases fresh : ref.index = machine.heap.functions.size
      · rw [if_pos fresh, Option.some.injEq] at found
        refine ⟨outer, ?_⟩
        rw [fresh, ← tidy.housed, ← found]
        exact List.getElem?_concat_length
      · rw [if_neg fresh] at found
        obtain ⟨old, here⟩ := tidy.homes ref other found
        exact ⟨old, prefix_getElem? (List.prefix_append _ _) here⟩
  have defined := define name.lexeme (.function ⟨machine.heap.functions.size⟩) housed made
  have spares : tracer.machine.Spares housed.machine :=
    ⟨rfl, rfl, Nat.le_refl _, fun _ _ _ _ bound => bound⟩
  exact defined.following spares

/-- While the initial value of a variable is computed, its declaration is not complete. -/
theorem initial {name : String} {action : Traced α} {allowed : α → Prop}
    (kept : KeepsTidy (place.bind name false) action
      fun value there => there = place.bind name false ∧ allowed value) :
    KeepsTidy place action fun value there => there = place ∧ allowed value := by
  intro tracer tidy
  have ends := kept tracer (tidy.mono fun _ => by simp [Surroundings.bind, Scopes.completes_bind])
  cases ran : action tracer with
  | ok value next =>
      rw [ran] at ends
      obtain ⟨_, reached, spares, rfl, permitted⟩ := ends
      exact ⟨place, reached.mono fun _ => by simp [Surroundings.bind, Scopes.completes_bind],
        spares, rfl, permitted⟩
  | error halt next =>
      rw [ran] at ends
      exact ends

/-- A loop changes nothing of the scoping. -/
theorem loop {action : Traced α} {allowed : α → Prop}
    (kept : KeepsTidy place.looping action
      fun value there => there = place.looping ∧ allowed value) :
    KeepsTidy place (Traced.inside .loop action)
      fun value there => there = place ∧ allowed value := by
  intro tracer tidy
  let start : Tracer := { tracer with machine := Setting.loop.enter tracer.machine }
  have into := Setting.loop.enter_scoping tracer.machine
  have ends := kept start (tidy.steady into)
  unfold Traced.inside
  cases ran : action start with
  | ok value next =>
      rw [ran] at ends
      obtain ⟨_, reached, spares, rfl, permitted⟩ := ends
      have back : next.machine.SameScoping
          (Setting.loop.leave tracer.machine.environment tracer.machine.loopDepth next.machine) :=
        ⟨rfl, rfl, rfl, rfl, rfl, rfl⟩
      exact ⟨place, reached.steady back, (into.spares.trans spares).trans back.spares, rfl,
        permitted⟩
  | error halt next =>
      rw [ran] at ends
      exact ends

/-- An action inside a new environment gives no names to the environment around it. -/
theorem enter {action : Traced α} {inner : Surroundings} {setting : EnvironmentRef → Setting}
    (opens : ∀ environment current, (setting environment).environment current = environment)
    (bindings : Bindings) (parent : EnvironmentRef) (kept : KeepsTidy inner action post)
    (own : ∀ name, (bindings.get? name).isSome = true → inner.scopes.Completes name)
    {allowed : α → Prop} (implies : ∀ value there, post value there → allowed value) :
    KeepsTidy place
      (do let environment ← Traced.lift (Exec.newEnvironment bindings parent)
          Traced.inside (setting environment) action)
      fun value there => there = place ∧ allowed value := by
  intro tracer tidy
  let machine := tracer.machine
  let ref : EnvironmentRef := ⟨machine.heap.environments.size⟩
  let made : Machine := machine.mapHeap fun heap =>
    (heap.newEnvironment ⟨bindings, some parent⟩).2
  let start : Tracer := { tracer with machine := (setting ref).enter made }
  have opened := (setting ref).enter_scoping made
  rw [opens] at opened
  have ends := kept start ((tidy_entered bindings parent tidy own).steady opened)
  change EndsTidy tracer _ (Traced.inside (setting ref) action { tracer with machine := made })
  unfold Traced.inside
  cases ran : action start with
  | error halt next =>
      rw [ran] at ends
      exact ends
  | ok value next =>
      rw [ran] at ends
      obtain ⟨there, ended, further, permitted⟩ := ends
      have spares : (entered bindings parent machine).Spares next.machine :=
        opened.spares.trans further
      have grown : machine.heap.environments.size ≤ next.machine.heap.environments.size := by
        have size := size_entered bindings parent machine
        exact Nat.le_of_succ_le (Nat.le_trans (Nat.le_of_eq size.symm) spares.size)
      let home : Machine := { next.machine with environment := machine.environment }
      have kept : machine.Spares home :=
        ⟨rfl, spares.globals, grown, fun ref name old _ => binds_of_spares_entered spares old⟩
      have returned : Tracer.Tidy place.scopes { next with machine := home } := by
        refine ⟨ended.tame, ended.known, Nat.lt_of_lt_of_le tidy.inside grown,
          fun inner name bound => ?_, ended.housed, ended.homes, ended.visits⟩
        refine tidy.names ?_ name (binds_of_spares_entered spares tidy.inside bound)
        change machine.environment ≠ next.machine.globals at inner
        rw [spares.globals] at inner
        exact inner
      have back := (setting ref).leave_scoping made next.machine further.environment
      exact ⟨place, returned.steady back, kept.trans back.spares, rfl,
        implies value there permitted⟩

/-- The arrival at a request is tidy. -/
theorem arrive (request : Request α) :
    KeepsTidy place (Traced.arrive place request) fun _ there => there = place := by
  cases request with
  | evaluate tree =>
      cases tree with
      | «variable» node name => exact .pure rfl
      | _ => exact .visit _
  | execute step => exact .visit _
  | _ => exact .pure rfl

/-- A steady action is tidy. -/
theorem perform {primitive : Primitive α} (steady : primitive.Steady) :
    KeepsTidy place (Traced.perform place primitive)
      fun value there => there = place ∧ primitive.Gives Surroundings.terrain.Good value := by
  rw [perform_steady _ steady]
  exact .steady steady.blind.steady fun _ _ _ ran =>
    ⟨rfl, Primitive.gives_of_ok (fun _ => trivial) ran⟩

/-- Reading a variable is tidy, with its visit. -/
theorem perform_read (node : NodeId) (name : Token) :
    KeepsTidy place (Traced.perform place (.read node name))
      fun value there => there = place ∧ Surroundings.terrain.Good value := by
  refine (KeepsTidy.visit _).bind ?_
  rintro _ _ rfl
  exact (KeepsTidy.read node name).mono fun _ _ same => ⟨same, trivial⟩

/-- Assigning a variable is tidy, with its visit. -/
theorem perform_assign (node : NodeId) (name : Token) (value : Value) :
    KeepsTidy place (Traced.perform place (.assign node name value))
      fun _ there => there = place := by
  refine (KeepsTidy.visit _).bind ?_
  rintro _ _ rfl
  exact .assign node name value

/-- The test of a leaving statement is tidy. -/
theorem leave {step : Statement} {depth : Primitive Nat} {token : Token}
    {reason : RuntimeError.Reason} {action : Traced Flow} {post : Flow → Surroundings → Prop}
    (leaves : step.Leaves depth token reason) (kept : KeepsTidy place action post) :
    KeepsTidy place (do
      Traced.arrive place (.execute step)
      if (← Traced.perform place depth) = 0 then Traced.perform place (.fail token reason)
      else action) post := by
  have looked : KeepsTidy place (Traced.perform place depth) fun _ there => there = place := by
    rw [perform_depth _ leaves]
    exact .steady (fun machine _ => .refl machine) fun _ _ _ _ => rfl
  refine (KeepsTidy.arrive (.execute step)).bind ?_
  rintro _ _ rfl
  refine looked.bind ?_
  rintro count _ rfl
  split
  · exact .throw _
  · exact kept

/-- A block starts in an empty scope. -/
theorem block {action : Traced Flow}
    (kept : KeepsTidy place.opening action fun flow _ => Surroundings.terrain.Ends place.opening flow) :
    KeepsTidy place (do
      let parent ← Traced.perform place .environment
      let environment ← Traced.perform place (.newEnvironment [] parent)
      Traced.inside (.within environment) action)
      fun flow there => there = place ∧ Surroundings.terrain.Ends place flow := by
  intro tracer tidy
  exact enter (fun _ _ => rfl) [] tracer.machine.environment kept
    (fun _ bound => Bool.noConfusion bound) (fun _ _ ends => ends) tracer tidy

/-- At its start the body of a function has its parameters. -/
theorem call {closing : Token} {ref : FunctionRef} {arguments : List Value}
    {answer : {β : Type} → Surroundings → Request β → Traced β}
    (answers : ∀ (inner : Surroundings) (block : List Statement),
      KeepsTidy inner (answer inner (.executeAll block))
        fun flow _ => Surroundings.terrain.Ends inner flow) :
    KeepsTidy place
      (Interpretation.recording.step answer place (.call closing (.function ref) arguments))
      fun value there => there = place ∧ Surroundings.terrain.Good value := by
  intro tracer tidy
  rw [Traced.step_call]
  cases found : tracer.machine.heap.closure? ref with
  | none => exact KeepsTidy.pure ⟨rfl, trivial⟩ tracer tidy
  | some closure =>
      obtain ⟨outer, here⟩ := tidy.homes ref closure found
      have body := answers (.ofFunction (Scopes.ofParameters closure.parameters :: outer))
        closure.body
      dsimp only
      rw [here]
      split
      · exact tidy.visits
      · rename_i arity
        split
        · exact tidy.visits
        · rw [← bind_assoc]
          refine bind (enter (fun _ _ => rfl) _ _ body (fun name bound => ?_)
            fun _ _ _ => trivial) (fun flow there ends => .pure ⟨ends.1, trivial⟩) tracer tidy
          obtain ⟨parameter, inside, rfl⟩ :=
            (closure.get?_bindings arguments (not_not.mp arity) name).mp bound
          exact (Scopes.mem_ofParameters _ _).mpr ⟨parameter, inside, rfl⟩

end KeepsTidy

/-- Every run keeps its local environments tidy. -/
def tidying : Analysis .recording Surroundings where
  toTerrain := Surroundings.terrain
  Shows := KeepsTidy
  pure := .pure
  next := .bind
  exhausted := .throw _
  arrive {_ _ request} _ := .arrive request
  perform steady _ := .perform steady
  read {_ node name} _ := .perform_read node name
  assign {_ node name _ value} _ _ := .perform_assign node name value
  initial _ kept := .initial kept
  define _ _ := .define _ _
  function {_ name parameters body} _ := .function name parameters body
  leave _ leaves kept := .leave leaves (kept (Surroundings.terrain_mayLeave _ _))
  loop := .loop
  block _ kept := .block (kept _ rfl trivial)
  call _ _ answers := .call fun inner block => answers inner block trivial

end Traced

/-- All visits of a run that starts without functions are tidy. -/
theorem Machine.trace_tidy {rule : Site → Prop} {locator : Locator} {world : World}
    {machine : Machine} (program : Program) (fuel : Nat)
    (fits : world.Fits rule locator (machine.ready locator)) (fresh : world.homes = []) :
    ∀ visit ∈ (machine.trace fuel program locator).2.visits, visit.Tidy := by
  have functions : (machine.ready locator).heap.functions.size = 0 := by
    rw [← fits.functions, fresh]
    rfl
  have tidy : Tracer.Tidy [[]] ⟨machine.ready locator, [], []⟩ := by
    refine ⟨fits.tame, fits.known, fits.known, fun inner => absurd rfl inner, functions.symm, ?_,
      fun _ member => absurd member List.not_mem_nil⟩
    intro ref closure found
    have inside : ref.index < (machine.ready locator).heap.functions.size :=
      (Array.getElem?_eq_some_iff.mp found).1
    omega
  have kept := Traced.tidying.program fuel .outermost program trivial
  rw [Machine.trace_final]
  exact (kept _ tidy).visits

end OffsideScript
