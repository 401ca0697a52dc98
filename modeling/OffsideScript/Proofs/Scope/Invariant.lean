import OffsideScript.Proofs.Machine.Mirror
import OffsideScript.Proofs.Scope.World

namespace OffsideScript

/-- The environments at a visit stand for frames with the recorded scopes. -/
def Visit.Placed (rule : Site → Prop) (locator : Locator) (visit : Visit) : Prop :=
  ∃ (world : World) (frames : Frames), frames.scopes = visit.scopes ∧
    world.Fits rule locator visit.machine ∧
    world.Chain visit.machine.heap visit.machine.globals visit.machine.environment frames ∧
    rule ⟨visit.node, frames⟩

/-- A recorded run has come to a place inside the given frames. -/
structure World.Holds (world : World) (rule : Site → Prop) (locator : Locator)
    (frames : Frames) (tracer : Tracer) : Prop where
  fits : world.Fits rule locator tracer.machine
  chain : world.Chain tracer.machine.heap tracer.machine.globals tracer.machine.environment frames
  homes : tracer.homes = world.homes.map Frames.scopes
  visits : ∀ visit ∈ tracer.visits, visit.Placed rule locator

/-- A machine comes back to the same environment, and no environment loses a name. -/
structure Machine.Advances (before after : Machine) : Prop where
  heap : before.heap.Grows after.heap
  environment : after.environment = before.environment
  globals : after.globals = before.globals

theorem Machine.Advances.refl (machine : Machine) : machine.Advances machine :=
  ⟨.refl _, rfl, rfl⟩

theorem Machine.Advances.trans {first second third : Machine} (left : first.Advances second)
    (right : second.Advances third) : first.Advances third :=
  ⟨left.heap.trans right.heap, right.environment.trans left.environment,
    right.globals.trans left.globals⟩

/-- The same scoping is an advance. -/
theorem Machine.SameScoping.advances {before after : Machine} (same : before.SameScoping after) :
    before.Advances after :=
  ⟨.of_environments_eq same.environments, same.environment, same.globals⟩

/-- A run stays at its place if the scoping is the same. -/
theorem World.Holds.steady {world : World} {rule : Site → Prop} {locator : Locator}
    {frames : Frames} {tracer : Tracer} {machine : Machine}
    (holds : world.Holds rule locator frames tracer)
    (same : tracer.machine.SameScoping machine) :
    world.Holds rule locator frames { tracer with machine } := by
  refine ⟨holds.fits.steady same, ?_, holds.homes, holds.visits⟩
  change world.Chain machine.heap machine.globals machine.environment frames
  rw [same.environment, same.globals]
  exact holds.chain.mono (.refl world) same.advances.heap

/-- A setting changes nothing of the scoping but the environment. -/
theorem Setting.enter_scoping (setting : Setting) (machine : Machine) :
    Machine.SameScoping { machine with environment := setting.environment machine.environment }
      (setting.enter machine) := by
  cases setting <;> exact ⟨rfl, rfl, rfl, rfl, rfl, rfl⟩

/-- A setting is left for the environment in which it was entered. -/
theorem Setting.leave_scoping (setting : Setting) (machine after : Machine)
    (same : after.environment = (setting.enter machine).environment) :
    Machine.SameScoping { after with environment := machine.environment }
      (setting.leave machine.environment machine.loopDepth after) := by
  cases setting with
  | here | loop => exact ⟨rfl, rfl, same, rfl, rfl, rfl⟩
  | within _ | call _ => exact ⟨rfl, rfl, rfl, rfl, rfl, rfl⟩

/-- A context and the frames inside of which a statement stands. -/
structure Standpoint where
  context : Context
  frames : Frames

/-- An action that succeeds ends inside frames of a standpoint that is allowed with its result. All visits are in
their places even if it fails. -/
def World.Leads {α : Type} (world : World) (rule : Site → Prop) (locator : Locator)
    (tracer : Tracer) (post : α → Standpoint → Prop) : EStateM.Result Halt Tracer α → Prop
  | .ok value next => ∃ (later : World) (place : Standpoint), world.Extends later ∧
      tracer.machine.Advances next.machine ∧ later.Holds rule locator place.frames next ∧
      post value place
  | .error _ next => ∀ visit ∈ next.visits, visit.Placed rule locator

namespace Traced

variable {α β : Type} {rule : Site → Prop} {locator : Locator} {frames : Frames}
  {place : Standpoint} {post : α → Standpoint → Prop} {world later : World} {tracer next : Tracer}

/-- An action leads from anywhere inside the frames of a standpoint to where it is allowed. -/
def Keeps (rule : Site → Prop) (locator : Locator) (place : Standpoint) (action : Traced α)
    (post : α → Standpoint → Prop) : Prop :=
  ∀ world tracer, World.Holds world rule locator place.frames tracer →
    world.Leads rule locator tracer post (action tracer)

/-- A run that goes on from a later point leads where it does from there. -/
theorem leads_trans (wider : world.Extends later)
    (advances : tracer.machine.Advances next.machine) {result : EStateM.Result Halt Tracer α}
    (leads : later.Leads rule locator next post result) :
    world.Leads rule locator tracer post result := by
  cases result with
  | ok value last =>
      obtain ⟨latest, there, widest, further, holds⟩ := leads
      exact ⟨latest, there, wider.trans widest, advances.trans further, holds⟩
  | error halt last => exact leads

/-- The next action starts where the first one has led. -/
theorem leads_bind {action : Traced α} {following : α → Traced β}
    {last : β → Standpoint → Prop}
    (first : world.Leads rule locator tracer post (action tracer))
    (second : ∀ value there, post value there → Keeps rule locator there (following value) last) :
    world.Leads rule locator tracer last ((action >>= following) tracer) := by
  cases ran : action tracer with
  | ok value between =>
      rw [ran] at first
      rw [bind_of_ok ran]
      obtain ⟨later, there, wider, advances, holds, allowed⟩ := first
      exact leads_trans wider advances (second value there allowed later between holds)
  | error halt between =>
      rw [ran] at first
      rw [bind_of_error ran]
      exact first

namespace Keeps

/-- Actions that keep to their frames do so one after another. -/
theorem bind {action : Traced α} {following : α → Traced β} {last : β → Standpoint → Prop}
    (first : Keeps rule locator place action post)
    (second : ∀ value there, post value there → Keeps rule locator there (following value) last) :
    Keeps rule locator place (action >>= following) last :=
  fun world tracer holds => leads_bind (first world tracer holds) second

theorem pure {value : α} (allowed : post value place) :
    Keeps rule locator place (pure value) post :=
  fun world tracer holds => ⟨world, place, .refl world, .refl tracer.machine, holds, allowed⟩

/-- More may be allowed of an action that keeps to its frames. -/
theorem mono {action : Traced α} {last : α → Standpoint → Prop}
    (kept : Keeps rule locator place action post)
    (implies : ∀ value there, post value there → last value there) :
    Keeps rule locator place action last := by
  rw [← bind_pure action]
  exact kept.bind fun value there holds => .pure (implies value there holds)

/-- Any halt keeps to its frames. -/
theorem throw (halt : Halt) : Keeps rule locator place (throw halt : Traced α) post :=
  fun _ _ holds => holds.visits

/-- The frames may be replaced by others with the same environments. -/
theorem adapt {action : Traced α} {start : Standpoint} {last : α → Standpoint → Prop}
    (kept : Keeps rule locator place action post)
    (enter : ∀ (world : World) (heap : Heap) (globals ref : EnvironmentRef),
      world.Chain heap globals ref start.frames → world.Chain heap globals ref place.frames)
    (leave : ∀ value there, start.frames ≠ [] → post value there → ∃ back : Standpoint,
      last value back ∧ ∀ (world : World) (heap : Heap) (globals ref : EnvironmentRef),
        world.Chain heap globals ref there.frames → world.Chain heap globals ref back.frames) :
    Keeps rule locator start action last := by
  intro world tracer holds
  have leads := kept world tracer
    ⟨holds.fits, enter _ _ _ _ holds.chain, holds.homes, holds.visits⟩
  cases ran : action tracer with
  | ok value next =>
      rw [ran] at leads
      obtain ⟨later, there, wider, advances, reached, allowed⟩ := leads
      obtain ⟨back, final, leaves⟩ := leave value there holds.chain.nonempty allowed
      exact ⟨later, back, wider, advances,
        ⟨reached.fits, leaves _ _ _ _ reached.chain, reached.homes, reached.visits⟩, final⟩
  | error halt next =>
      rw [ran] at leads
      exact leads

/-- A visit of a node that obeys the rule is in its place. -/
theorem visit {node : Site.Node} (obeys : rule ⟨node, place.frames⟩) :
    Keeps rule locator place (visit place.frames.scopes node) fun _ there => there = place := by
  intro world tracer holds
  refine ⟨world, place, .refl world, .refl tracer.machine,
    ⟨holds.fits, holds.chain, holds.homes, ?_⟩, rfl⟩
  exact List.forall_mem_cons.mpr
    ⟨⟨world, place.frames, rfl, holds.fits, holds.chain, obeys⟩, holds.visits⟩

/-- An action on the machine leads to where the machine keeps fitting the world. -/
theorem lift {action : Exec α} (there : Standpoint)
    (kept : ∀ world machine, World.Fits world rule locator machine →
      world.Chain machine.heap machine.globals machine.environment place.frames →
      world.Fits rule locator (finalState (action machine)) ∧
        machine.Advances (finalState (action machine)) ∧
        world.Chain (finalState (action machine)).heap (finalState (action machine)).globals
          (finalState (action machine)).environment there.frames)
    (allowed : ∀ machine value after, action machine = .ok value after → post value there) :
    Keeps rule locator place (lift action) post := by
  intro world tracer holds
  have moved := kept world tracer.machine holds.fits holds.chain
  unfold Traced.lift
  cases ran : action tracer.machine with
  | ok value machine =>
      rw [ran] at moved
      exact ⟨world, there, .refl world, moved.2.1,
        ⟨moved.1, moved.2.2, holds.homes, holds.visits⟩, allowed _ value machine ran⟩
  | error halt machine => exact holds.visits

/-- Actions that keep the environments lead nowhere else. -/
theorem steady {action : Exec α}
    (same : ∀ machine : Machine, machine.Tame →
      machine.SameScoping (finalState (action machine)))
    (allowed : ∀ machine value after, action machine = .ok value after → post value place) :
    Keeps rule locator place (Traced.lift action) post := by
  refine lift place (fun world machine fits chain => ?_) allowed
  have kept := same machine fits.tame
  refine ⟨fits.steady kept, kept.advances, ?_⟩
  rw [kept.environment, kept.globals]
  exact chain.mono (.refl world) kept.advances.heap

/-- Reading a variable leads nowhere else. -/
theorem read (node : NodeId) (name : Token) :
    Keeps rule locator place (Traced.lift (Exec.read node name)) fun _ there => there = place := by
  refine steady (fun machine _ => ?_) fun _ _ _ _ => rfl
  rw [Exec.read_eq]
  cases (machine.place machine.locator node name.lexeme).bind
    (machine.heap.get? · name.lexeme) <;> exact .refl machine

/-- An assignment binds no new name. -/
theorem assign (node : NodeId) (name : Token) (value : Value) :
    Keeps rule locator place (Traced.lift (Exec.assign node name value))
      fun _ there => there = place := by
  refine lift place (fun world machine fits chain => ?_) fun _ _ _ _ => rfl
  rw [Exec.assign_eq]
  cases found : machine.place machine.locator node name.lexeme with
  | none => exact ⟨fits, .refl machine, chain⟩
  | some ref =>
      have bound : machine.heap.binds ref name.lexeme = true :=
        (Option.filter_eq_some_iff.mp found).2
      have grows := Heap.Grows.define machine.heap ref name.lexeme value
      exact ⟨fits.define ref name.lexeme value fun names inner declares =>
          fits.confined ref names name.lexeme inner declares bound,
        ⟨grows, rfl, rfl⟩, chain.mono (.refl world) grows⟩

/-- A declaration makes its name complete in the innermost scope. -/
theorem define (name : String) (value : Value) (admits : place.frames.Admits name) :
    Keeps rule locator place (Traced.lift (Exec.define name value))
      fun _ there => there = ⟨place.context, place.frames.bind name true⟩ := by
  refine lift ⟨place.context, place.frames.bind name true⟩ (fun world machine fits chain => ?_)
    fun _ _ _ _ => rfl
  have grows := Heap.Grows.define machine.heap machine.environment name value
  have bound : (machine.heap.define machine.environment name value).binds machine.environment
      name = true :=
    (machine.heap.binds_define _ _ _ _ _).mpr (.inl ⟨rfl, rfl, chain.inside fits.known⟩)
  exact ⟨fits.define machine.environment name value fun names inner declares =>
      chain.admits admits inner declares,
    ⟨grows, rfl, rfl⟩, (chain.mono (.refl world) grows).bind_complete admits bound⟩

/-- A function is made before it is defined, but its body is inside the scope that knows it. -/
theorem function (name : Token) (parameters : List Token) (body : List Statement)
    (suits : Statement.Suits rule place.context place.frames [.function name parameters body]) :
    Keeps rule locator place
      (do let value ← Traced.perform ⟨place.context, place.frames.scopes⟩
            (.newFunction name parameters body)
          Traced.lift (Exec.define name.lexeme value))
      fun _ there => there = ⟨place.context, place.frames.bind name.lexeme true⟩ := by
  intro world tracer holds
  let machine := tracer.machine
  let value : Value := .function ⟨machine.heap.functions.size⟩
  let closure : Closure := ⟨name, parameters, body, machine.environment⟩
  let home := Frame.ofFunction parameters body :: place.frames.bind name.lexeme true
  have admits := suits.admits rfl
  have grows := Heap.Grows.define machine.heap machine.environment name.lexeme value
  have bound : (machine.heap.define machine.environment name.lexeme value).binds
      machine.environment name.lexeme = true :=
    (machine.heap.binds_define _ _ _ _ _).mpr
      (.inl ⟨rfl, rfl, holds.chain.inside holds.fits.known⟩)
  have defined := holds.fits.define machine.environment name.lexeme value
    fun names inner declares => holds.chain.admits admits inner declares
  have chain := (holds.chain.mono (.refl world) grows).bind_complete admits bound
  have fits := defined.newFunction closure home ⟨suits.functionBody, _, rfl, chain⟩
  have wider := world.extends_house home
  have homes : tracer.homes ++ [Scopes.ofParameters parameters ::
      place.frames.scopes.bind name.lexeme true] = (world.homes ++ [home]).map Frames.scopes := by
    rw [List.map_append, holds.homes, List.map_singleton, Frames.scopes_cons, Frames.scopes_bind]
    rfl
  exact ⟨world.house home, ⟨place.context, place.frames.bind name.lexeme true⟩, wider,
    ⟨grows.trans (.of_environments_eq rfl), rfl, rfl⟩,
    ⟨fits, chain.mono wider (.of_environments_eq rfl), homes, holds.visits⟩, rfl⟩

end Keeps

/-- The machine in a new environment. -/
def entered (bindings : Bindings) (parent : EnvironmentRef) (machine : Machine) : Machine :=
  { machine.mapHeap fun heap => (heap.newEnvironment ⟨bindings, some parent⟩).2 with
    environment := ⟨machine.heap.environments.size⟩ }

/-- The new environment stands for a frame that declares all its names. -/
theorem holds_entered {frame : Frame} {outer : Frames} {parent : EnvironmentRef}
    {bindings : Bindings} (holds : world.Holds rule locator frames tracer)
    (chain : world.Chain tracer.machine.heap tracer.machine.globals parent outer)
    (settled : outer.Settled) (listed : ∀ entry ∈ frame.scope, entry.1 ∈ frame.declared)
    (bound : ∀ name, (name, true) ∈ frame.scope → (bindings.get? name).isSome = true)
    (own : ∀ name, (bindings.get? name).isSome = true → name ∈ frame.declared) :
    (world.declare frame.declared).Holds rule locator (frame :: outer)
      { tracer with machine := entered bindings parent tracer.machine } := by
  let heap := tracer.machine.heap
  let ref : EnvironmentRef := ⟨heap.environments.size⟩
  have fits := holds.fits.newEnvironment bindings parent (chain.inside holds.fits.known)
    frame.declared own
  have inner : ref ≠ tracer.machine.globals := by
    intro same
    have known := holds.fits.known
    change tracer.machine.globals.index < heap.environments.size at known
    rw [← same] at known
    exact Nat.lt_irrefl _ known
  have enclosed : (heap.newEnvironment ⟨bindings, some parent⟩).2.parent? ref = some parent :=
    (heap.parent?_newEnvironment _ ref).trans (if_pos rfl)
  refine ⟨fits.moved ref, ?_, holds.homes, holds.visits⟩
  refine .child inner (World.declare_last holds.fits.environments _) listed ?_ enclosed settled
    (chain.mono (world.extends_declare frame.declared) (.newEnvironment _ _))
  intro name member
  have names : (heap.newEnvironment ⟨bindings, some parent⟩).2.get? ref name =
      bindings.get? name := (heap.get?_newEnvironment _ ref name).trans (if_pos rfl)
  change ((heap.newEnvironment ⟨bindings, some parent⟩).2.get? ref name).isSome = true
  rw [names]
  exact bound name member

/-- An action in a setting comes back to the environment that it started from. -/
theorem leads_inside {action : Traced α} {inner : Standpoint} {setting : Setting}
    (wider : world.Extends later) (holds : world.Holds rule locator place.frames tracer)
    (entered : later.Holds rule locator inner.frames
      { tracer with machine := setting.enter tracer.machine })
    (kept : Keeps rule locator inner action post) {allowed : α → Prop}
    (implies : ∀ value last, post value last → allowed value) :
    world.Leads rule locator tracer (fun value there => there = place ∧ allowed value)
      (inside setting action tracer) := by
  have leads := kept later _ entered
  unfold Traced.inside
  cases ran : action { tracer with machine := setting.enter tracer.machine } with
  | ok value next =>
      rw [ran] at leads
      obtain ⟨latest, last, further, advances, reached, holdsThere⟩ := leads
      have back := setting.leave_scoping tracer.machine next.machine advances.environment
      have grown : tracer.machine.heap.Grows next.machine.heap := by
        have same := (setting.enter_scoping tracer.machine).environments
        exact Heap.Grows.trans (.of_environments_eq same) advances.heap
      have globals : next.machine.globals = tracer.machine.globals :=
        advances.globals.trans (setting.enter_scoping tracer.machine).globals
      let home : Machine := { next.machine with environment := tracer.machine.environment }
      have returns : tracer.machine.Advances home := ⟨grown, rfl, globals⟩
      have returned : latest.Holds rule locator place.frames { next with machine := home } := by
        refine ⟨reached.fits.moved tracer.machine.environment, ?_, reached.homes, reached.visits⟩
        change latest.Chain next.machine.heap next.machine.globals tracer.machine.environment _
        rw [globals]
        exact holds.chain.mono (wider.trans further) grown
      exact ⟨latest, place, wider.trans further, returns.trans back.advances, returned.steady back,
        rfl, implies value last holdsThere⟩
  | error halt next =>
      rw [ran] at leads
      exact leads

/-- What happens in a setting with a new environment comes back to where it started from. -/
theorem leads_enter {action : Traced α} {frame : Frame} {outer : Frames} {context : Context}
    {parent : EnvironmentRef} {bindings : Bindings} {setting : EnvironmentRef → Setting}
    (opens : ∀ environment current, (setting environment).environment current = environment)
    (kept : Keeps rule locator ⟨context, frame :: outer⟩ action post)
    (holds : world.Holds rule locator place.frames tracer)
    (chain : world.Chain tracer.machine.heap tracer.machine.globals parent outer)
    (settled : outer.Settled) (listed : ∀ entry ∈ frame.scope, entry.1 ∈ frame.declared)
    (bound : ∀ name, (name, true) ∈ frame.scope → (bindings.get? name).isSome = true)
    (own : ∀ name, (bindings.get? name).isSome = true → name ∈ frame.declared)
    {allowed : α → Prop} (implies : ∀ value last, post value last → allowed value) :
    world.Leads rule locator tracer (fun value there => there = place ∧ allowed value)
      ((do let environment ← lift (Exec.newEnvironment bindings parent)
           inside (setting environment) action) tracer) := by
  let ref : EnvironmentRef := ⟨tracer.machine.heap.environments.size⟩
  let made : Tracer := { tracer with
    machine := tracer.machine.mapHeap fun heap => (heap.newEnvironment ⟨bindings, some parent⟩).2 }
  have wider := world.extends_declare frame.declared
  have grows := Heap.Grows.newEnvironment tracer.machine.heap ⟨bindings, some parent⟩
  have fits := holds.fits.newEnvironment bindings parent (chain.inside holds.fits.known)
    frame.declared own
  have remains : (world.declare frame.declared).Holds rule locator place.frames made :=
    ⟨fits, holds.chain.mono wider grows, holds.homes, holds.visits⟩
  have opened := (setting ref).enter_scoping made.machine
  rw [opens] at opened
  have inner := (holds_entered holds chain settled listed bound own).steady opened
  have advances : tracer.machine.Advances made.machine := ⟨grows, rfl, rfl⟩
  exact leads_trans wider advances (leads_inside (.refl _) remains inner kept implies)

/-- All visits are in their places, wherever a run leads. -/
theorem leads_visits {result : EStateM.Result Halt Tracer α}
    (leads : world.Leads rule locator tracer post result) :
    ∀ visit ∈ (finalState result).visits, visit.Placed rule locator := by
  cases result with
  | ok value next =>
      obtain ⟨_, _, _, _, holds, _⟩ := leads
      exact holds.visits
  | error halt next => exact leads

end Traced

namespace Standpoint

variable {rule : Site → Prop} {place : Standpoint}

/-- A declaration changes the innermost frame, and a loop changes the context. -/
def moves : Moves Standpoint where
  surroundings place := ⟨place.context, place.frames.scopes⟩
  bind place name complete := ⟨place.context, place.frames.bind name complete⟩
  looping place := ⟨{ place.context with inLoop := true }, place.frames⟩
  surroundings_bind place name complete := by
    rw [Frames.scopes_bind]
    rfl
  surroundings_looping _ := rfl

/-- The standpoint behind a statement has the frames behind it. -/
theorem moves_extend (place : Standpoint) (step : Statement) :
    moves.extend place step = ⟨place.context, place.frames.extend step⟩ := by
  cases step <;> rfl

/-- The texts all of whose nodes obey a rule when they are seen from a standpoint. -/
def Suits (rule : Site → Prop) (place : Standpoint) : Text → Prop
  | .expression tree => ∀ site ∈ tree.sites place.frames, rule site
  | .statement step => Statement.Suits rule place.context place.frames [step]
  | .statements steps => Statement.Suits rule place.context place.frames steps
  | .body block => Statement.Suits rule place.context (Frame.ofBody block :: place.frames) block

/-- The expressions of a statement suit the place where they are evaluated. -/
theorem suits_operand {step : Statement} {part : Expression}
    (suits : place.Suits rule (.statement step)) (member : part ∈ step.operands) :
    (moves.into place step).Suits rule (.expression part) := by
  intro site inside
  refine suits.sites site ?_
  rw [Statement.sites.eq_def]
  refine List.mem_cons_of_mem _ ?_
  cases step with
  | print | evaluate =>
      cases List.mem_singleton.mp member
      exact inside
  | declare name initial =>
      cases initial with
      | none => cases member
      | some tree =>
          cases List.mem_singleton.mp member
          exact inside
  | ret keyword value =>
      cases value with
      | none => cases member
      | some tree =>
          cases List.mem_singleton.mp member
          exact inside
  | branch branches =>
      obtain ⟨branch, listed, rfl⟩ := List.mem_map.mp member
      exact Statement.mem_sitesBranches listed (List.mem_append_left _ inside)
  | loop condition body =>
      cases List.mem_singleton.mp member
      exact List.mem_append_left _ inside
  | function | breakLoop | continueLoop => cases member

/-- The blocks of a statement suit the place where they are executed. -/
theorem suits_block {step : Statement} {block : List Statement}
    (suits : place.Suits rule (.statement step)) (member : block ∈ step.blocks) :
    (moves.into place step).Suits rule (.body block) := by
  have sites := suits.sites
  rw [Statement.sites.eq_def] at sites
  replace sites := (List.forall_mem_cons.mp sites).2
  cases step with
  | branch branches =>
      obtain ⟨branch, listed, rfl⟩ := List.mem_map.mp member
      exact .ofBody suits.settled fun site inside => sites site
        (Statement.mem_sitesBranches listed (List.mem_append_right _ inside))
  | loop condition body =>
      cases List.mem_singleton.mp member
      exact .ofBody suits.settled (List.forall_mem_append.mp sites).2
  | _ => cases member

/-- The parts of a text suit their places. -/
theorem suits_part {text part : Text} {inner : Standpoint} (suits : place.Suits rule text)
    (isPart : text.Part moves place inner part) : inner.Suits rule part := by
  cases isPart with
  | child member => exact fun site inside => suits site (Expression.mem_sites_of_child member inside)
  | operand member => exact suits_operand suits member
  | block member => exact suits_block suits member
  | head => exact suits.head
  | tail =>
      rw [moves_extend]
      exact suits.tail

/-- All ends of statements and all values are possible. -/
def terrain (rule : Site → Prop) : Terrain Standpoint where
  toMoves := moves
  suits := Suits rule
  parts := suits_part
  Called _ := True
  Looped _ := True
  called_bind _ := trivial
  looped_bind _ := trivial
  called_looping _ := trivial
  Good _ := True
  plain _ _ := trivial

/-- A statement may end in any way. -/
theorem terrain_ends (place : Standpoint) (flow : Flow) : (terrain rule).Ends place flow := by
  cases flow with
  | returned value => exact ⟨trivial, trivial⟩
  | _ => trivial

/-- Any statement may leave where it is. -/
theorem terrain_mayLeave (place : Standpoint) (step : Statement) :
    (terrain rule).MayLeave place step := by
  cases step <;> trivial

end Standpoint

namespace Traced.Keeps

variable {α : Type} {rule : Site → Prop} {locator : Locator} {place : Standpoint}

/-- The arrival at a request that suits its place is recorded in its place. -/
theorem arrive {request : Request α} (suits : (Standpoint.terrain rule).Suits place request) :
    Keeps rule locator place (arrive (Standpoint.moves.surroundings place) request)
      fun _ there => there = place := by
  cases request with
  | evaluate tree =>
      cases tree with
      | «variable» node name => exact .pure rfl
      | _ => exact .visit (suits _ List.mem_cons_self)
  | execute step => exact .visit suits.here
  | _ => exact .pure rfl

/-- A steady action leads nowhere else. -/
theorem perform {primitive : Primitive α} (steady : primitive.Steady) :
    Keeps rule locator place (perform (Standpoint.moves.surroundings place) primitive)
      fun value there => there = place ∧ primitive.Gives (Standpoint.terrain rule).Good value := by
  rw [perform_steady _ steady]
  exact .steady steady.blind.steady fun _ _ _ ran =>
    ⟨rfl, Primitive.gives_of_ok (fun _ => trivial) ran⟩

/-- Reading a variable is recorded in its place. -/
theorem perform_read {node : NodeId} {name : Token}
    (suits : place.Suits rule (.expression (.variable node name))) :
    Keeps rule locator place
      (Traced.perform (Standpoint.moves.surroundings place) (.read node name))
      fun value there => there = place ∧ (Standpoint.terrain rule).Good value := by
  refine (Keeps.visit (suits _ List.mem_cons_self)).bind ?_
  rintro _ _ rfl
  exact (Keeps.read node name).mono fun _ _ same => ⟨same, trivial⟩

/-- Assigning a variable is recorded in its place. -/
theorem perform_assign {node : NodeId} {name : Token} {tree : Expression} (value : Value)
    (suits : place.Suits rule (.expression (.assign node name tree))) :
    Keeps rule locator place
      (Traced.perform (Standpoint.moves.surroundings place) (.assign node name value))
      fun _ there => there = place := by
  have target : rule ⟨.target node name, place.frames⟩ := suits _ (by simp [Expression.sites])
  refine (Keeps.visit target).bind ?_
  rintro _ _ rfl
  exact .assign node name value

/-- While the initial value of a variable is computed, its scope knows that it is declared. -/
theorem initial {name : String} {action : Traced Value} (admits : place.frames.Admits name)
    (kept : Keeps rule locator (Standpoint.moves.bind place name false) action
      fun value there => there = Standpoint.moves.bind place name false ∧
        (Standpoint.terrain rule).Good value) :
    Keeps rule locator place action
      fun value there => there = place ∧ (Standpoint.terrain rule).Good value := by
  refine kept.adapt (fun _ _ _ _ chain => chain.bind_incomplete admits) ?_
  rintro value there nonempty ⟨rfl, good⟩
  exact ⟨place, ⟨rfl, good⟩, fun _ _ _ _ chain => chain.of_bind nonempty⟩

/-- The test of a leaving statement leads nowhere else. -/
theorem leave {step : Statement} {depth : Primitive Nat} {token : Token}
    {reason : RuntimeError.Reason} {action : Traced Flow} {post : Flow → Standpoint → Prop}
    (suits : place.Suits rule (.statement step)) (leaves : step.Leaves depth token reason)
    (kept : Keeps rule locator place action post) :
    Keeps rule locator place (do
      Traced.arrive (Standpoint.moves.surroundings place) (.execute step)
      if (← Traced.perform (Standpoint.moves.surroundings place) depth) = 0 then
        Traced.perform (Standpoint.moves.surroundings place) (.fail token reason)
      else action) post := by
  have arrived : Keeps rule locator place
      (Traced.arrive (Standpoint.moves.surroundings place) (.execute step))
      fun _ there => there = place := .arrive suits
  have looked : Keeps rule locator place
      (Traced.perform (Standpoint.moves.surroundings place) depth) fun _ there => there = place := by
    rw [perform_depth _ leaves]
    exact .steady (fun machine _ => .refl machine) fun _ _ _ _ => rfl
  refine arrived.bind ?_
  rintro _ _ rfl
  refine looked.bind ?_
  rintro count _ rfl
  split
  · exact .throw _
  · exact kept

/-- A loop leads nowhere else. -/
theorem loop {action : Traced Flow} {allowed : Flow → Prop}
    (kept : Keeps rule locator (Standpoint.moves.looping place) action
      fun flow there => there = Standpoint.moves.looping place ∧ allowed flow) :
    Keeps rule locator place (inside .loop action)
      fun flow there => there = place ∧ allowed flow := by
  intro world tracer holds
  have entered : world.Holds rule locator place.frames
      { tracer with machine := Setting.loop.enter tracer.machine } :=
    holds.steady (Setting.loop.enter_scoping tracer.machine)
  exact leads_inside (.refl world) holds entered kept fun _ _ ends => ends.2

/-- A block runs in the frame of its own names. -/
theorem block {block : List Statement} {action : Traced Flow}
    (suits : place.Suits rule (.body block))
    (kept : Keeps rule locator ⟨place.context, Frame.ofBody block :: place.frames⟩ action
      fun flow _ => (Standpoint.terrain rule).Ends
        ⟨place.context, Frame.ofBody block :: place.frames⟩ flow) :
    Keeps rule locator place (do
      let parent ← Traced.perform (Standpoint.moves.surroundings place) .environment
      let environment ← Traced.perform (Standpoint.moves.surroundings place)
        (.newEnvironment [] parent)
      inside (.within environment) action)
      fun flow there => there = place ∧ (Standpoint.terrain rule).Ends place flow := by
  intro world tracer holds
  exact leads_enter (fun _ _ => rfl) kept holds holds.chain
    (List.forall_mem_cons.mp suits.settled).2 (fun _ member => absurd member List.not_mem_nil)
    (fun _ member => absurd member List.not_mem_nil) (fun _ bound => Bool.noConfusion bound)
    fun flow _ _ => Standpoint.terrain_ends place flow

/-- The body of a function runs inside the frames of its declaration. -/
theorem leads_closure {answer : {β : Type} → Surroundings → Request β → Traced β}
    {world : World} {tracer : Tracer} (closure : Closure) (arguments : List Value)
    (arity : closure.parameters.length = arguments.length) (home : Frames)
    (holds : world.Holds rule locator place.frames tracer)
    (houses : world.Houses rule tracer.machine.heap tracer.machine.globals closure home)
    (kept : Keeps rule locator ⟨⟨true, false⟩, home⟩
      (answer (.ofFunction home.scopes) (.executeAll closure.body)) post) :
    world.Leads rule locator tracer
      (fun value there => there = place ∧ (Standpoint.terrain rule).Good value)
      ((do let environment ← Traced.lift
             (Exec.newEnvironment (closure.bindings arguments) closure.environment)
           let flow ← inside (.call environment)
             (answer (.ofFunction home.scopes) (.executeAll closure.body))
           return flow.result : Traced Value) tracer) := by
  obtain ⟨outer, shape, chain⟩ := houses.chain
  have settled := houses.suits.settled
  subst shape
  rw [← bind_assoc]
  refine leads_bind (leads_enter (fun _ _ => rfl) kept holds chain ?_ ?_ ?_ ?_
    fun _ _ _ => trivial) fun flow there ends => .pure ⟨ends.1, trivial⟩
  · exact (List.forall_mem_cons.mp settled).2
  · intro entry member
    obtain ⟨parameter, inside, rfl⟩ := (Scopes.mem_ofParameters _ _).mp member
    exact List.mem_append_left _ (List.mem_map_of_mem inside)
  · intro name member
    obtain ⟨parameter, inside, same⟩ := (Scopes.mem_ofParameters _ _).mp member
    exact (closure.get?_bindings arguments arity name).mpr
      ⟨parameter, inside, (Prod.mk.inj same).1.symm⟩
  · intro name bound
    obtain ⟨parameter, inside, rfl⟩ := (closure.get?_bindings arguments arity name).mp bound
    exact List.mem_append_left _ (List.mem_map_of_mem inside)

/-- A call runs the body of its function in its frames and comes back. -/
theorem call {closing : Token} {ref : FunctionRef} {arguments : List Value}
    {answer : {β : Type} → Surroundings → Request β → Traced β}
    (answers : ∀ (inner : Standpoint) (block : List Statement),
      inner.Suits rule (.statements block) →
        Keeps rule locator inner (answer (Standpoint.moves.surroundings inner) (.executeAll block))
          fun flow _ => (Standpoint.terrain rule).Ends inner flow) :
    Keeps rule locator place
      (Interpretation.recording.step answer (Standpoint.moves.surroundings place)
        (.call closing (.function ref) arguments))
      fun value there => there = place ∧ (Standpoint.terrain rule).Good value := by
  intro world tracer holds
  rw [Traced.step_call]
  cases found : tracer.machine.heap.closure? ref with
  | none => exact Keeps.pure ⟨rfl, trivial⟩ world tracer holds
  | some closure =>
      obtain ⟨home, here, houses⟩ := holds.fits.closures ref closure found
      have scopes : (tracer.homes[ref.index]?).getD [] = home.scopes := by
        rw [holds.homes, List.getElem?_map, here]
        rfl
      have body := answers ⟨⟨true, false⟩, home⟩ closure.body houses.suits
      dsimp only
      rw [scopes]
      split
      · exact holds.visits
      · rename_i arity
        split
        · exact holds.visits
        · exact leads_closure closure arguments (not_not.mp arity) home holds houses body

end Traced.Keeps

/-- A run stays inside the frames of what it runs. A function that runs long after its declaration does so too,
since the world keeps its frames. -/
def Traced.keeping (rule : Site → Prop) (locator : Locator) : Analysis .recording Standpoint where
  toTerrain := Standpoint.terrain rule
  Shows place action post := Keeps rule locator place action post
  pure := .pure
  next := .bind
  exhausted := .throw _
  arrive suits := .arrive suits
  perform steady _ := .perform steady
  read suits := .perform_read suits
  assign {_ _ _ _ value} suits _ := .perform_assign value suits
  initial suits kept := .initial (suits.admits rfl) kept
  define suits _ := .define _ _ (suits.admits rfl)
  function suits := .function _ _ _ suits
  leave suits leaves kept := .leave suits leaves (kept (Standpoint.terrain_mayLeave _ _))
  loop := .loop
  block suits kept := .block suits (kept _ rfl suits)
  call _ _ answers := .call answers

/-- All visits of a run that starts without functions are in their places. -/
theorem Machine.trace_placed {rule : Site → Prop} {locator : Locator} {world : World}
    {machine : Machine} {program : Program} (fuel : Nat)
    (fits : world.Fits rule locator (machine.ready locator)) (fresh : world.homes = [])
    (ruled : ∀ site ∈ program.sites, rule site) :
    ∀ visit ∈ (machine.trace fuel program locator).2.visits, visit.Placed rule locator := by
  have suits : Statement.Suits rule ⟨false, false⟩ [⟨[], []⟩] program :=
    ⟨by simp [Frames.Settled], fun _ _ _ _ => trivial, ruled⟩
  have holds : world.Holds rule locator [⟨[], []⟩] ⟨machine.ready locator, [], []⟩ :=
    ⟨fits, .root fun _ member => absurd member List.not_mem_nil, by rw [fresh]; rfl,
      fun _ member => absurd member List.not_mem_nil⟩
  have kept := (Traced.keeping rule locator).program fuel ⟨⟨false, false⟩, [⟨[], []⟩]⟩ program suits
  have placed := Traced.leads_visits (kept world _ holds)
  rw [Machine.trace_final]
  exact placed

end OffsideScript
