import OffsideScript.Proofs.Machine.Control
import OffsideScript.Proofs.Scope.Resolution

namespace OffsideScript

/-- A visit inside of what the context of its statement says. -/
def Visit.Attended (visit : Visit) : Prop :=
  ∀ context statement, visit.node = .statement context statement →
    context.Inside visit.machine.callDepth visit.machine.loopDepth

/-- A visit of a statement that leaves a function or a loop is inside of one. -/
def Visit.Confined (visit : Visit) : Prop :=
  match visit.node with
  | .statement _ (.ret _ _) => 0 < visit.machine.callDepth
  | .statement _ (.breakLoop _) => 0 < visit.machine.loopDepth
  | .statement _ (.continueLoop _) => 0 < visit.machine.loopDepth
  | _ => True

namespace Traced

variable {α β : Type}

/-- An action comes back to its control state, all its visits are attended, and it complains about the
place of a statement only after a visit that is not confined. If it succeeds, it ends near a place that is allowed
with its result. -/
structure Attentive (place : Nesting) (tracer : Tracer) (post : α → Nesting → Prop)
    (result : EStateM.Result Halt Tracer α) : Prop where
  control : tracer.machine.SameControl (finalState result).machine
  visits : (∀ visit ∈ tracer.visits, visit.Attended) →
    ∀ visit ∈ (finalState result).visits, visit.Attended
  complaint : ∀ error after, result = .error (.error error) after →
    error.reason.IsMisplacement → ∃ visit ∈ after.visits, ¬visit.Confined
  ends : ∀ value after, result = .ok value after → place.Near (post value)

section Attentive

variable {place : Nesting} {tracer after : Tracer} {post : α → Nesting → Prop}

/-- An action that succeeds is attentive if it ends near an allowed place. -/
theorem Attentive.of_ok {value : α} (control : tracer.machine.SameControl after.machine)
    (visits : (∀ visit ∈ tracer.visits, visit.Attended) → ∀ visit ∈ after.visits, visit.Attended)
    (near : place.Near (post value)) : Attentive place tracer post (.ok value after) := by
  refine ⟨control, visits, fun _ _ failed => ?_, fun _ _ ended => ?_⟩
  · cases failed
  · cases ended
    exact near

/-- An action that fails is attentive if it complains about a visited statement only. -/
theorem Attentive.of_error {halt : Halt} (control : tracer.machine.SameControl after.machine)
    (visits : (∀ visit ∈ tracer.visits, visit.Attended) → ∀ visit ∈ after.visits, visit.Attended)
    (complaint : ∀ error, halt = .error error → error.reason.IsMisplacement →
      ∃ visit ∈ after.visits, ¬visit.Confined) :
    Attentive place tracer post (.error halt after) := by
  refine ⟨control, visits, fun error _ failed wrong => ?_, fun _ _ ended => ?_⟩
  · cases failed
    exact complaint error rfl wrong
  · cases ended

end Attentive

/-- An action is attentive from anywhere inside the calls and loops of a place. -/
def Attends (place : Nesting) (action : Traced α) (post : α → Nesting → Prop) : Prop :=
  ∀ tracer : Tracer, tracer.machine.callDepth = place.calls →
    tracer.machine.loopDepth = place.loops → Attentive place tracer post (action tracer)

namespace Attends

variable {place : Nesting} {action : Traced α} {next : α → Traced β}
  {post : α → Nesting → Prop}

/-- Attentive actions are attentive one after another. -/
theorem bind {last : β → Nesting → Prop} (first : Attends place action post)
    (second : ∀ value there, post value there → Attends there (next value) last) :
    Attends place (action >>= next) last := by
  intro tracer sameCalls sameLoops
  have before := first tracer sameCalls sameLoops
  cases ran : action tracer with
  | ok value middle =>
      rw [ran] at before
      rw [bind_of_ok ran]
      obtain ⟨there, calls, loops, allowed⟩ := before.ends value middle rfl
      have after := second value there allowed middle
        (before.control.callDepth.trans (sameCalls.trans calls.symm))
        (before.control.loopDepth.trans (sameLoops.trans loops.symm))
      refine ⟨before.control.trans after.control, fun seen => after.visits (before.visits seen),
        after.complaint, fun result final ended => ?_⟩
      obtain ⟨later, furtherCalls, furtherLoops, holds⟩ := after.ends result final ended
      exact ⟨later, furtherCalls.trans calls, furtherLoops.trans loops, holds⟩
  | error halt middle =>
      rw [ran] at before
      rw [bind_of_error ran]
      refine .of_error before.control before.visits fun error failed wrong => ?_
      cases failed
      exact before.complaint error middle rfl wrong

theorem pure {value : α} (allowed : post value place) : Attends place (pure value) post :=
  fun tracer _ _ => .of_ok (.refl tracer.machine) id ⟨place, rfl, rfl, allowed⟩

/-- A lack of fuel is no complaint. -/
theorem throw_outOfFuel : Attends place (throw .outOfFuel : Traced α) post :=
  fun tracer _ _ => .of_error (.refl tracer.machine) id fun _ failed => by cases failed

/-- Inert actions are attentive. -/
theorem inert {action : Exec α} (inert : Exec.Inert action)
    (allowed : ∀ machine value after, action machine = .ok value after →
      place.Near (post value)) :
    Attends place (lift action) post := by
  intro tracer _ _
  have kept := inert.control tracer.machine
  have placed := inert.placed tracer.machine
  unfold lift
  cases ran : action tracer.machine with
  | ok value machine =>
      rw [ran] at kept
      exact .of_ok kept id (allowed tracer.machine value machine ran)
  | error halt machine =>
      rw [ran] at kept
      refine .of_error kept id fun error failed wrong => ?_
      cases failed
      exact absurd wrong (placed error machine ran)

/-- Settling the scopes of a function is attentive. -/
theorem settle (scopes : Scopes) : Attends place (settle scopes) fun _ there => there = place :=
  fun tracer _ _ => .of_ok (.refl tracer.machine) id ⟨place, rfl, rfl, rfl⟩

/-- A visit in the context of its place is attended. -/
theorem visit {node : Site.Node}
    (attended : ∀ context statement, node = .statement context statement →
      context = place.around.context) :
    Attends place (visit place.around.scopes node) fun _ there => there = place := by
  intro tracer sameCalls sameLoops
  refine .of_ok (.refl tracer.machine) (fun seen => ?_) ⟨place, rfl, rfl, rfl⟩
  refine List.forall_mem_cons.mpr ⟨?_, seen⟩
  intro context statement same
  change context.Inside tracer.machine.callDepth tracer.machine.loopDepth
  rw [sameCalls, sameLoops, attended context statement same]
  exact place.inside

/-- The arrival at a request is attended. -/
theorem arrive (request : Request α) :
    Attends place (arrive place.around request) fun _ there => there = place := by
  cases request with
  | evaluate tree =>
      cases tree with
      | «variable» node name => exact .pure rfl
      | _ => exact .visit fun _ _ same => by cases same
  | execute step =>
      refine .visit fun _ _ same => ?_
      cases same
      rfl
  | _ => exact .pure rfl

/-- Steady actions are attentive. -/
theorem perform {primitive : Primitive α} (steady : primitive.Steady) :
    Attends place (perform place.around primitive)
      fun value there => there = place ∧ primitive.Gives Nesting.terrain.Good value := by
  rw [perform_steady _ steady]
  exact .inert steady.inert fun _ _ _ ran =>
    ⟨place, rfl, rfl, rfl, Primitive.gives_of_ok (fun _ => trivial) ran⟩

/-- Reading a variable is attentive. -/
theorem perform_read (node : NodeId) (name : Token) :
    Attends place (Traced.perform place.around (.read node name))
      fun value there => there = place ∧ Nesting.terrain.Good value := by
  have visited : Attends place
      (Traced.visit place.around.scopes (.expression (.variable node name)))
      fun _ there => there = place := .visit fun _ _ same => by cases same
  refine visited.bind ?_
  rintro _ _ rfl
  exact .inert (.read node name) fun _ _ _ _ => ⟨_, rfl, rfl, rfl, trivial⟩

/-- Assigning a variable is attentive. -/
theorem perform_assign (node : NodeId) (name : Token) (value : Value) :
    Attends place (Traced.perform place.around (.assign node name value))
      fun _ there => there = place := by
  have visited : Attends place (Traced.visit place.around.scopes (.target node name))
      fun _ there => there = place := .visit fun _ _ same => by cases same
  refine visited.bind ?_
  rintro _ _ rfl
  exact .inert (.assign node name value) fun _ _ _ _ => ⟨_, rfl, rfl, rfl⟩

/-- A variable whose initial value is computed changes no calls and no loops. -/
theorem initial {name : String} {action : Traced Value}
    (attends : Attends (Nesting.terrain.bind place name false) action fun value there =>
      there = Nesting.terrain.bind place name false ∧ Nesting.terrain.Good value) :
    Attends place action fun value there => there = place ∧ Nesting.terrain.Good value := by
  intro tracer sameCalls sameLoops
  have kept := attends tracer sameCalls sameLoops
  exact ⟨kept.control, kept.visits, kept.complaint,
    fun _ _ _ => ⟨place, rfl, rfl, rfl, trivial⟩⟩

/-- A definition is attentive. -/
theorem define (name : String) (value : Value) :
    Attends place (lift (Exec.define name value))
      fun _ there => there = Nesting.terrain.bind place name true :=
  .inert (.define name value) fun _ _ _ _ =>
    ⟨Nesting.terrain.bind place name true, rfl, rfl, rfl⟩

/-- The declaration of a function is attentive. -/
theorem function (name : Token) (parameters : List Token) (body : List Statement) :
    Attends place
      (do let value ← Traced.perform place.around (.newFunction name parameters body)
          lift (Exec.define name.lexeme value))
      fun _ there => there = Nesting.terrain.bind place name.lexeme true := by
  have made : Attends place (Traced.perform place.around (.newFunction name parameters body))
      fun _ there => there = place := by
    have new : Attends place (lift (Exec.newFunction name parameters body))
        fun _ there => there = place :=
      .inert (.newFunction name parameters body) fun _ _ _ _ => ⟨place, rfl, rfl, rfl⟩
    refine new.bind ?_
    rintro value _ rfl
    exact (Attends.settle _).bind fun _ _ same => .pure same
  refine made.bind ?_
  rintro value _ rfl
  exact .define name.lexeme value

/-- A statement that is refused outside of all calls or loops was visited there. -/
theorem leave {step : Statement} {depth : Primitive Nat} {token : Token}
    {reason : RuntimeError.Reason} {action : Traced Flow} {post : Flow → Nesting → Prop}
    (leaves : step.Leaves depth token reason)
    (attends : Nesting.terrain.MayLeave place step → Attends place action post) :
    Attends place (do
      Traced.arrive place.around (.execute step)
      if (← Traced.perform place.around depth) = 0 then
        Traced.perform place.around (.fail token reason)
      else action) post := by
  intro tracer sameCalls sameLoops
  rw [perform_depth _ leaves]
  let seen : Visit := ⟨place.around.scopes, .statement place.around.context step, tracer.machine⟩
  let arrived : Tracer := { tracer with visits := seen :: tracer.visits }
  have visited := Attends.arrive (.execute step) tracer sameCalls sameLoops
  change Attentive place tracer post
    ((if step.depth tracer.machine = 0 then Traced.perform place.around (.fail token reason)
      else action) arrived)
  by_cases outside : step.depth tracer.machine = 0
  · rw [if_pos outside]
    refine .of_error visited.control visited.visits fun error _ _ => ?_
    refine ⟨seen, List.mem_cons_self, ?_⟩
    cases leaves <;> exact Nat.not_lt.mpr (Nat.le_of_eq outside)
  · rw [if_neg outside]
    have following := attends (place.mayLeave sameCalls sameLoops outside) arrived sameCalls
      sameLoops
    exact ⟨following.control, fun before => following.visits (visited.visits before),
      following.complaint, following.ends⟩

/-- What is shown at an inner place holds of an action that enters it. -/
theorem inside {inner : Nesting} {setting : Setting} {last : α → Nesting → Prop}
    (attends : Attends inner action post)
    (entering : ∀ machine : Machine, machine.callDepth = place.calls →
      machine.loopDepth = place.loops → (setting.enter machine).callDepth = inner.calls ∧
        (setting.enter machine).loopDepth = inner.loops)
    (implies : ∀ value, inner.Near (post value) → last value place) :
    Attends place (inside setting action) last := by
  intro tracer sameCalls sameLoops
  obtain ⟨innerSame, outerSame⟩ := entering tracer.machine sameCalls sameLoops
  have kept := attends { tracer with machine := setting.enter tracer.machine } innerSame outerSame
  have control := setting.leave_control _ _ kept.control
  unfold Traced.inside
  cases ran : action { tracer with machine := setting.enter tracer.machine } with
  | ok value after =>
      rw [ran] at kept control
      exact .of_ok control kept.visits
        ⟨place, rfl, rfl, implies value (kept.ends value after rfl)⟩
  | error halt after =>
      rw [ran] at kept control
      refine .of_error control kept.visits fun error failed wrong => ?_
      cases failed
      exact kept.complaint error after rfl wrong

/-- The body of a loop is attentive inside of one more loop. -/
theorem loop {action : Traced Flow} {allowed : Flow → Prop}
    (attends : Attends (Nesting.terrain.looping place) action fun flow there =>
      there = Nesting.terrain.looping place ∧ allowed flow) :
    Attends place (Traced.inside .loop action)
      fun flow there => there = place ∧ allowed flow := by
  refine attends.inside (fun machine calls loops => ⟨calls, congrArg (· + 1) loops⟩) ?_
  rintro flow ⟨there, _, _, _, holds⟩
  exact ⟨rfl, holds⟩

/-- A block is attentive inside the same calls and loops. -/
theorem block {action : Traced Flow}
    (attends : Attends place.opening action fun flow _ =>
      Nesting.terrain.Ends place.opening flow) :
    Attends place (do
      let parent ← Traced.perform place.around .environment
      let environment ← Traced.perform place.around (.newEnvironment [] parent)
      Traced.inside (.within environment) action)
      fun flow there => there = place ∧ Nesting.terrain.Ends place flow := by
  have found : Attends place (Traced.perform place.around .environment)
      fun _ there => there = place :=
    .inert (.get fun machine => .pure _) fun _ _ _ _ => ⟨place, rfl, rfl, rfl⟩
  refine found.bind ?_
  rintro parent _ rfl
  refine Attends.bind (.inert (.newEnvironment [] parent) fun _ _ _ _ => ⟨_, rfl, rfl, rfl⟩) ?_
  rintro environment _ rfl
  refine attends.inside (fun machine calls loops => ⟨calls, loops⟩) ?_
  rintro flow ⟨there, _, _, ends⟩
  exact ⟨rfl, ends⟩

/-- The body of a function is attentive inside of one more call. -/
theorem call {closing : Token} {ref : FunctionRef} {arguments : List Value}
    {answer : {β : Type} → Surroundings → Request β → Traced β}
    (answers : ∀ (inner : Nesting) (block : List Statement),
      Attends inner (answer inner.around (.executeAll block))
        fun flow _ => Nesting.terrain.Ends inner flow) :
    Attends place
      (Interpretation.recording.step answer place.around (.call closing (.function ref) arguments))
      fun value there => there = place ∧ Nesting.terrain.Good value := by
  have refused (reason : RuntimeError.Reason) (placed : ¬reason.IsMisplacement) :
      Attends place (lift (Exec.fail closing reason) : Traced Value)
        fun value there => there = place ∧ Nesting.terrain.Good value :=
    .inert (.fail closing placed) fun _ _ _ ended => by cases ended
  intro tracer sameCalls sameLoops
  rw [Traced.step_call]
  cases tracer.machine.heap.closure? ref with
  | none => exact Attends.pure ⟨rfl, trivial⟩ tracer sameCalls sameLoops
  | some closure =>
      dsimp only
      split
      · exact refused (.arity _ _) not_false tracer sameCalls sameLoops
      · split
        · exact refused .stackOverflow not_false tracer sameCalls sameLoops
        · have body := answers (place.called ((tracer.homes[ref.index]?).getD [])) closure.body
          refine Attends.bind (.inert (.newEnvironment _ _) fun _ _ _ _ => ⟨place, rfl, rfl, rfl⟩)
            ?_ tracer sameCalls sameLoops
          rintro environment _ rfl
          have ran : Attends _ (Traced.inside (.call environment) (answer _ _))
              fun _ there => there = _ :=
            body.inside (fun machine calls _ => ⟨congrArg (· + 1) calls, rfl⟩) fun _ _ => rfl
          exact ran.bind fun flow there same => .pure ⟨same, trivial⟩

end Attends

/-- Every run attends to the places of its statements. -/
def attending : Analysis .recording Nesting where
  toTerrain := Nesting.terrain
  Shows := Attends
  pure := .pure
  next := .bind
  exhausted := .throw_outOfFuel
  arrive {_ _ request} _ := .arrive request
  perform steady _ := .perform steady
  read {_ node name} _ := .perform_read node name
  assign {_ node name _ value} _ _ := .perform_assign node name value
  initial _ attends := .initial attends
  define _ _ := .define _ _
  function {_ name parameters body} _ := .function name parameters body
  leave _ leaves attends := .leave leaves attends
  loop := .loop
  block _ attends := .block (attends _ rfl trivial)
  call _ _ answers := .call fun inner block => answers inner block trivial

end Traced

/-- The analysis of scopes finds no fault at a node only if its context has what it leaves. -/
theorem Visit.Attended.confined {visit : Visit} (attended : visit.Attended) {frames : Frames}
    (faultless : ∀ finding ∈ Site.findings ⟨visit.node, frames⟩, finding.fault? = none) :
    visit.Confined := by
  have within {condition : Bool} {token : Token} {reason : ScopeError.Reason}
      (none : ∀ finding ∈ Finding.faultIf (!condition) token reason, finding.fault? = none) :
      condition = true := by
    cases condition with
    | true => rfl
    | false => cases none _ List.mem_cons_self
  rcases visit with ⟨scopes, node, machine⟩
  cases node with
  | expression value => trivial
  | target node name => trivial
  | statement context step =>
      have inside := attended context step rfl
      cases step with
      | ret keyword value => exact inside.function (within faultless)
      | breakLoop keyword => exact inside.loop (within faultless)
      | continueLoop keyword => exact inside.loop (within faultless)
      | _ => trivial

/-- No node of an accepted program has a fault. -/
theorem Compiled.faultless {source : String} {compiled : Compiled}
    (accepted : compile source = .ok compiled) :
    ∀ site ∈ compiled.program.sites, ∀ finding ∈ site.findings, finding.fault? = none := by
  obtain ⟨_, _, _, resolved⟩ := compile_eq_ok accepted
  have none : ∀ finding ∈ compiled.program.findings, finding.fault? = none :=
    List.filterMap_eq_nil_iff.mp (congrArg Prod.snd resolved)
  intro site member finding found
  refine none finding ?_
  rw [← compiled.program.sites_findings]
  exact List.mem_flatMap.mpr ⟨site, member, found⟩

/-- The visits of a whole run are attended, and it complains only about a visit that is not confined. -/
theorem Machine.trace_attended (machine : Machine) (fuel : Nat) (program : Program)
    (locator : Locator) :
    (∀ visit ∈ (machine.trace fuel program locator).2.visits, visit.Attended) ∧
    ∀ error, (machine.trace fuel program locator).1 = some (.error error) →
      error.reason.IsMisplacement →
      ∃ visit ∈ (machine.trace fuel program locator).2.visits, ¬visit.Confined := by
  have attends : Traced.Attentive (.free 0 0) ⟨machine.ready locator, [], []⟩ (fun _ _ => True)
      (program.interpret .recording fuel .outermost ⟨machine.ready locator, [], []⟩) :=
    Traced.attending.program fuel (.free 0 0) program trivial _ rfl rfl
  unfold Machine.trace
  cases ran : program.interpret .recording fuel .outermost ⟨machine.ready locator, [], []⟩ with
  | ok value after =>
      rw [ran] at attends
      exact ⟨attends.visits fun _ member => absurd member List.not_mem_nil,
        fun _ ended => by cases ended⟩
  | error halt after =>
      rw [ran] at attends
      refine ⟨attends.visits fun _ member => absurd member List.not_mem_nil, ?_⟩
      intro error ended wrong
      cases ended
      exact attends.complaint error after rfl wrong

/-- Whatever an accepted source text does on a machine that starts, its recorded run is its run, each
statement that leaves a function or a loop runs inside of one, and the run never ends in a complaint
about the place of such a statement. -/
theorem Machine.interpret_confined (source : String) (compiled : Compiled)
    (accepted : compile source = .ok compiled) (fuel : Nat) (files : FileSystem) (clock : Clock)
    (sink : Sink) :
    let machine := Machine.start files clock sink
    let locator := compiled.distances.locator
    let run := machine.trace fuel compiled.program locator
    machine.interpret fuel compiled.program locator = (run.1, run.2.machine.relocate locator) ∧
    (∀ visit ∈ run.2.visits, visit.Confined) ∧
    ∀ error after, machine.interpret fuel compiled.program locator = (some (.error error), after) →
      ¬error.reason.IsMisplacement := by
  intro machine locator run
  have placed := machine.trace_placed fuel
    (World.first_fits_start (fun site => site ∈ compiled.program.sites) locator files clock sink)
    rfl (fun _ member => member)
  have recorded := machine.interpret_eq_trace fuel compiled.program locator locator
    fun visit member => Visit.agrees_self (placed visit member)
  obtain ⟨attended, complaint⟩ := machine.trace_attended fuel compiled.program locator
  have confined : ∀ visit ∈ run.2.visits, visit.Confined := by
    intro visit member
    obtain ⟨_, frames, _, _, _, listed⟩ := placed visit member
    exact (attended visit member).confined fun finding found =>
      Compiled.faultless accepted _ listed finding found
  refine ⟨recorded, confined, fun error after ended wrong => ?_⟩
  rw [recorded] at ended
  obtain ⟨visit, member, astray⟩ := complaint error (congrArg Prod.fst ended) wrong
  exact astray (confined visit member)

/-- The number of calls around a function that returns. -/
def Visit.returnDepth? (visit : Visit) : Option Nat :=
  match visit.node with
  | .statement _ (.ret _ _) => some visit.machine.callDepth
  | _ => none

/-- A function that is declared in a loop returns after the loop was left. -/
theorem Machine.interpret_confined_later :
    ∃ compiled, compile ("let held = nihl\nwhile true\n    func same(word)\n        ret word\n" ++
        "    held = same\n    break\nprint held('a')\n") = .ok compiled ∧
      let run := (Machine.start ⟨[], [], true⟩ (.still 0) (.empty none)).trace 20 compiled.program
        compiled.distances.locator
      run.1 = none ∧ (∃ visit ∈ run.2.visits, visit.returnDepth? = some 1) ∧
        ∀ visit ∈ run.2.visits, visit.Confined := by
  obtain ⟨compiled, accepted, checked⟩ :=
    compile_of_check ("let held = nihl\nwhile true\n    func same(word)\n        ret word\n" ++
        "    held = same\n    break\nprint held('a')\n")
      (fun compiled =>
        let run := (Machine.start ⟨[], [], true⟩ (.still 0) (.empty none)).trace 20 compiled.program
          compiled.distances.locator
        run.1.isNone && run.2.visits.any fun visit => visit.returnDepth? == some 1)
      (by decide +kernel)
  rw [Bool.and_eq_true, Option.isNone_iff_eq_none, List.any_eq_true] at checked
  obtain ⟨finished, visit, member, depth⟩ := checked
  exact ⟨compiled, accepted, finished, ⟨visit, member, beq_iff_eq.mp depth⟩,
    (Machine.interpret_confined _ compiled accepted 20 ⟨[], [], true⟩ (.still 0) (.empty none)).2.1⟩

end OffsideScript
