/-
This file shows when two programs that run one after the other on one machine do what their
concatenation does. The functions that the first program leaves behind keep its numbers, but the second
program brings its own table, so both tables have to agree about these functions.
-/

import OffsideScript.Proofs.Concatenation
import OffsideScript.Proofs.Machine.Control
import OffsideScript.Proofs.Machine.Transfer
import OffsideScript.Proofs.Token.Lines

namespace OffsideScript

/-- Takes the lines and numbers of a concatenation back to those of the part that they are in. -/
def Relabeling.back (lines nodes : Nat) : Relabeling :=
  ⟨fun line => if line ≤ lines then line else line - lines,
    fun node => if node < nodes then node else node - nodes⟩

namespace Program

variable {early late tokens : List Token} {first second : Program} {lines : Nat}
  (readEarly : Program.ofTokens early = (first, []))
  (readLate : Program.ofTokens late = (second, []))
  (read : Program.ofTokens tokens =
    (first ++ second.relabel (.shift lines (allocated early)), []))

include readEarly readLate read

/-- The joint table has the distances of the first program. -/
theorem find?_early {node : NodeId} (given : (node : Nat) < allocated early) :
    (resolve (first ++ second.relabel (.shift lines (allocated early)))).1.find? node =
      first.resolve.1.find? node := by
  apply Option.ext
  intro hops
  rw [find?_append readEarly readLate read]
  constructor
  · rintro (found | ⟨old, rfl, _⟩)
    · exact found
    · exact absurd given (Nat.not_lt.mpr (Nat.le_add_left _ _))
  · exact .inl

/-- The joint table has the distances of the second program. -/
theorem find?_late (node : NodeId) :
    (resolve (first ++ second.relabel (.shift lines (allocated early)))).1.find?
      (node + allocated early) = second.resolve.1.find? node := by
  apply Option.ext
  intro hops
  rw [find?_append readEarly readLate read]
  constructor
  · rintro (found | ⟨old, moved, found⟩)
    · have given := distances_below readEarly ((find?_eq_some_iff readEarly _ _).mp found)
      exact absurd given (Nat.not_lt.mpr (Nat.le_add_left _ _))
    · rwa [Nat.add_right_cancel moved]
  · exact fun found => .inr ⟨node, rfl, found⟩

/-- The references of the first program keep their distances. -/
theorem keeps_early : Transfer.Keeps ⟨.back lines (allocated early),
    (resolve (first ++ second.relabel (.shift lines (allocated early)))).1, first.resolve.1⟩
    (Statement.nodesAll first) := by
  intro node member
  have given := nodes_below readEarly member
  change first.resolve.1.find? (if node < allocated early then node else _) = _
  rw [if_pos given, find?_early readEarly readLate read given]

/-- The references of the second program keep their distances. -/
theorem keeps_late : Transfer.Keeps ⟨.back lines (allocated early),
    (resolve (first ++ second.relabel (.shift lines (allocated early)))).1, second.resolve.1⟩
    (Statement.nodesAll (second.relabel (.shift lines (allocated early)))) := by
  intro moved member
  rw [show Statement.nodesAll (second.relabel _) = _ from Statement.nodesAll_relabel _ second] at member
  obtain ⟨node, _, rfl⟩ := List.mem_map.mp member
  change second.resolve.1.find? (if node + allocated early < allocated early then _
    else node + allocated early - allocated early) = _
  rw [if_neg (Nat.not_lt.mpr (Nat.le_add_left _ _)), Nat.add_sub_cancel]
  exact (find?_late readEarly readLate read node).symm

end Program

/-- The first program of a concatenation has its own labels. -/
theorem Program.relabel_back {source : String} {tokens : List Token} {program : Program}
    (ends : Text.EndsLine source.toList) (scanned : Token.scan source = (tokens, []))
    (read : Program.ofTokens tokens = (program, [])) :
    program.relabel (.back (Text.lineEnds source.toList) (allocated tokens)) = program :=
  relabel_eq read
    (fun _ member written => if_pos (Token.scan_line_le scanned ends member written))
    (fun _ given => if_pos given)

/-- The second program of a concatenation gets its own labels back. -/
theorem Program.relabel_shift_back {source : String} {tokens : List Token} {program : Program}
    (scanned : Token.scan source = (tokens, [])) (read : Program.ofTokens tokens = (program, []))
    (lines nodes : Nat) :
    (program.relabel (.shift lines nodes)).relabel (.back lines nodes) = program := by
  unfold Program.relabel
  rw [Statement.relabelAll_comp]
  apply relabel_eq read
  · intro token member written
    have positive := Token.scan_line_pos scanned member
    change (if token.line + lines ≤ lines then token.line + lines else token.line + lines - lines) = _
    rw [if_neg (by omega), Nat.add_sub_cancel]
  · intro node given
    change (if node + nodes < nodes then node + nodes else node + nodes - nodes) = _
    rw [if_neg (Nat.not_lt.mpr (Nat.le_add_left _ _)), Nat.add_sub_cancel]

/-- The statements of two programs are executed in order. -/
theorem Exec.executeProgram_append (fuel : Nat) (before after : Program) :
    executeProgram fuel (before ++ after) =
      (do executeProgram fuel before; executeProgram fuel after) := by
  induction before with
  | nil => rfl
  | cons statement before ih =>
      change (do let _ ← execute fuel statement; executeProgram fuel (before ++ after)) =
        (do let _ ← execute fuel statement; executeProgram fuel before) >>= fun _ =>
          executeProgram fuel after
      rw [ih, bind_assoc]

/-- A machine that starts has no functions yet. -/
theorem Transfer.admits_start (transfer : Transfer) (files : FileSystem) (clock : Clock) (sink : Sink) :
    transfer.Admits ((Machine.start files clock sink).ready transfer.old.locator) := by
  have library : (Machine.start files clock sink).library = Builtin.standard.toArray := rfl
  have standard {slot : Nat} {builtin : Builtin}
      (found : (Machine.start files clock sink).library[slot]? = some builtin) :
      builtin ∈ Builtin.standard := by
    rw [library, List.getElem?_toArray] at found
    exact List.mem_of_getElem? found
  refine ⟨rfl, fun slot builtin found => Builtin.standard_tame builtin (standard found),
    fun slot builtin found => Builtin.standard_indifferent builtin (standard found), ?_⟩
  intro closure member
  have none : closure ∈ (#[] : Array Closure) := member
  exact absurd none (Array.not_mem_empty closure)

/-- A machine that starts has nothing with old labels but its table. -/
theorem Transfer.machine_start (transfer : Transfer) (files : FileSystem) (clock : Clock) (sink : Sink)
    (locator : Locator) : transfer.machine ((Machine.start files clock sink).ready locator) =
      (Machine.start files clock sink).ready transfer.new.locator := by
  have none : transfer.functions #[] = #[] := Array.map_empty
  unfold Transfer.machine Host.withFunctions
  change { (Machine.start files clock sink).ready transfer.new.locator with
    host.heap := Heap.withFunctions (Machine.start files clock sink).heap (transfer.functions #[]) } = _
  rw [none]
  rfl

namespace Machine

/-- A run that comes to its end has no halt. -/
theorem interpret_of_ok {fuel : Nat} {program : Program} {locator : Locator} {machine after : Machine}
    (ran : Exec.executeProgram fuel program (machine.ready locator) = .ok () after) :
    machine.interpret fuel program locator = (none, after) := by
  unfold interpret
  rw [ran]

/-- A run that fails ends with its halt. -/
theorem interpret_of_error {fuel : Nat} {program : Program} {locator : Locator}
    {machine after : Machine} {halt : Halt}
    (ran : Exec.executeProgram fuel program (machine.ready locator) = .error halt after) :
    machine.interpret fuel program locator = (some halt, after) := by
  unfold interpret
  rw [ran]

/-- A text that is accepted runs as its program does. -/
theorem run_of_compile {source : String} {compiled : Compiled} (accepted : compile source = .ok compiled)
    (fuel : Nat) (machine : Machine) :
    let ran := machine.interpret fuel compiled.program compiled.distances.locator
    machine.run fuel source = (ran.1.map .ofHalt, ran.2) := by
  unfold run
  rw [accepted]

/-- A program that ran to its end has left a machine that is ready for the next one. -/
theorem ready_after {fuel : Nat} {program : Program} {locator other : Locator}
    {machine after : Machine}
    (ran : Exec.executeProgram fuel program (machine.ready locator) = .ok () after) :
    after.ready other = { after with locator := other } := by
  have kept := (Exec.executeProgram_returns fuel program 0 0).control (machine.ready locator) rfl rfl
  rw [ran] at kept
  have environment : after.environment = after.globals := kept.environment.trans kept.globals.symm
  have calls : after.callDepth = 0 := kept.callDepth
  have loops : after.loopDepth = 0 := kept.loopDepth
  unfold ready
  rw [environment, calls, loops]

/-- Two programs run one after the other as they run together, if the labels of both are taken back and
both tables agree about the functions that the first program has left. -/
theorem interpret_apart {labels : Relabeling} {one two both : Distances} {first moved : Program}
    (unmoved : first.relabel labels = first)
    (early : Transfer.Keeps ⟨labels, both, one⟩ (Statement.nodesAll first))
    (late : Transfer.Keeps ⟨labels, both, two⟩ (Statement.nodesAll moved))
    (fuel : Nat) (files : FileSystem) (clock : Clock) (sink : Sink) {middle : Machine}
    (finished : (start files clock sink).interpret fuel first one.locator = (none, middle))
    (agree : ∀ closure ∈ middle.heap.functions, ∀ node ∈ Statement.nodesAll closure.body,
      two.find? node = one.find? node) :
    let joined := (start files clock sink).interpret fuel (first ++ moved) both.locator
    middle.interpret fuel (moved.relabel labels) two.locator =
      (joined.1.map (Halt.relabel labels), Transfer.machine ⟨labels, both, two⟩ joined.2) := by
  intro joined
  let before : Transfer := ⟨labels, both, one⟩
  let after : Transfer := ⟨labels, both, two⟩
  have started := before.admits_start files clock sink
  have natural := Exec.executeProgram_natural fuel first early
  have same := natural.same _ started
  have kept := natural.admits _ started
  rw [before.machine_start] at same
  change Exec.executeProgram fuel (first.relabel labels) _ = _ at same
  rw [unmoved] at same
  cases ran : Exec.executeProgram fuel first ((start files clock sink).ready both.locator) with
  | error halt between =>
      rw [ran] at same
      cases (interpret_of_error same).symm.trans finished
  | ok value between =>
      rw [ran] at same kept
      cases (interpret_of_ok same).symm.trans finished
      have admits : after.Admits between := by
        refine ⟨kept.locator, kept.tame, kept.library, fun closure member node inside => ?_⟩
        have left : closure.relabel labels ∈ (before.machine between).heap.functions :=
          Array.mem_map_of_mem member
        have moved : labels.node node ∈ Statement.nodesAll (closure.relabel labels).body := by
          change _ ∈ Statement.nodesAll (Statement.relabelAll labels closure.body)
          rw [Statement.nodesAll_relabel]
          exact List.mem_map_of_mem inside
        exact (agree _ left _ moved).trans (kept.closures closure member node inside)
      have ready : (before.machine between).ready two.locator = after.machine between :=
        ready_after same
      have whole : Exec.executeProgram fuel (first ++ moved)
          ((start files clock sink).ready both.locator) = Exec.executeProgram fuel moved between := by
        rw [Exec.executeProgram_append]
        exact bind_of_ok ran
      have continued := (Exec.executeProgram_natural fuel moved late).same between admits
      rw [← ready] at continued
      cases rest : Exec.executeProgram fuel moved between with
      | ok value last =>
          rw [rest] at continued whole
          rw [interpret_of_ok continued, show joined = (none, last) from interpret_of_ok whole]
          rfl
      | error halt last =>
          rw [rest] at continued whole
          rw [interpret_of_error continued,
            show joined = (some halt, last) from interpret_of_error whole]
          rfl

/-- Two accepted texts that run one after the other on a machine do what their concatenation does on a
machine of its own: they write the same, leave the same files and end in the same way, where the lines
of the second text are counted behind those of the first. This holds as long as every function that the
first text has left finds its variables at the same distances in the table of the second. -/
theorem interpret_append (first second : String) (one two : Compiled)
    (ends : Text.EndsLine first.toList) (flush : Text.IsFlush second.toList)
    (before : compile first = .ok one) (after : compile second = .ok two)
    (fuel : Nat) (files : FileSystem) (clock : Clock) (sink : Sink) (middle : Machine)
    (finished : (start files clock sink).interpret fuel one.program one.distances.locator =
      (none, middle))
    (agree : ∀ closure ∈ middle.heap.functions, ∀ node ∈ Statement.nodesAll closure.body,
      two.distances.find? node = one.distances.find? node) :
    ∃ both, compile (first ++ second) = .ok both ∧
      let late := middle.interpret fuel two.program two.distances.locator
      let joined := (start files clock sink).interpret fuel both.program both.distances.locator
      let labels : Relabeling :=
        .back (Text.lineEnds first.toList) (Program.allocated (Token.scan first).1)
      late.1 = joined.1.map (Halt.relabel labels) ∧ late.2.sink = joined.2.sink ∧
        late.2.host.files = joined.2.host.files := by
  obtain ⟨tokens, scanned, read⟩ := exists_tokens_append ends flush before after
  obtain ⟨early, scannedEarly, readEarly, resolvedEarly⟩ := compile_eq_ok before
  obtain ⟨late, scannedLate, readLate, resolvedLate⟩ := compile_eq_ok after
  have faultless := Program.faults_append
    (.shift (Text.lineEnds first.toList) (Program.allocated (Token.scan first).1))
    resolvedEarly resolvedLate
  refine ⟨_, compile_of_stages scanned read (Prod.ext rfl faultless), ?_⟩
  rw [scannedEarly] at read ⊢
  have unmoved := Program.relabel_back ends scannedEarly readEarly
  have keepsEarly := Program.keeps_early readEarly readLate read
  have keepsLate := Program.keeps_late readEarly readLate read
  rw [resolvedEarly] at keepsEarly
  rw [resolvedLate] at keepsLate
  have apart := interpret_apart unmoved keepsEarly keepsLate fuel files clock sink finished agree
  rw [Program.relabel_shift_back scannedLate readLate] at apart
  intro last joined labels
  have whole : last = (joined.1.map (Halt.relabel labels), _) := apart
  rw [whole]
  exact ⟨rfl, rfl, rfl⟩

/-- A function of the first text that finds its parameter, because the second text has a function like
it, before the second text fails on its last line. -/
theorem interpret_append_alike :
    let first := "func same(word)\n    ret word\n"
    let second := "func other(word)\n    ret word\nprint same('a')\nprint missing\n"
    let machine := start ⟨[], [], true⟩ (.still 0) (.empty none)
    ∃ one two both middle, compile first = .ok one ∧ compile second = .ok two ∧
      machine.interpret 20 one.program one.distances.locator = (none, middle) ∧
      middle.heap.functions.size = 1 ∧
      (∀ closure ∈ middle.heap.functions, ∀ node ∈ Statement.nodesAll closure.body,
        two.distances.find? node = one.distances.find? node) ∧
      compile (first ++ second) = .ok both ∧
      let late := middle.interpret 20 two.program two.distances.locator
      let joined := machine.interpret 20 both.program both.distances.locator
      late.1.map Failure.ofHalt =
          some (.failed ⟨4, .lexeme "missing", .undefinedVariable "missing"⟩) ∧
        late.2.sink.written = "a\n".toUTF8 ∧
        late.1 = joined.1.map (Halt.relabel (.back 2 1)) ∧ late.2.sink = joined.2.sink ∧
        late.2.host.files = joined.2.host.files := by
  intro first second machine
  obtain ⟨one, before, checked⟩ := compile_of_check first
    (fun compiled =>
      let early := machine.interpret 20 compiled.program compiled.distances.locator
      early.1.isNone && early.2.heap.functions.size == 1 &&
        early.2.heap.functions.all (fun closure => Statement.nodesAll closure.body == [0]) &&
        compiled.distances.find? 0 == some 0)
    (by decide +kernel)
  obtain ⟨two, after, found⟩ := compile_of_check second
    (fun compiled => compiled.distances.find? 0 == some 0) (by decide +kernel)
  simp only [Bool.and_eq_true, Option.isNone_iff_eq_none, beq_iff_eq, Array.all_eq_true_iff_forall_mem]
    at checked found
  obtain ⟨⟨⟨finished, count⟩, bodies⟩, known⟩ := checked
  have lines : Text.lineEnds first.toList = 2 := by decide +kernel
  have nodes : Program.allocated (Token.scan first).1 = 1 := by decide +kernel
  let middle := (machine.interpret 20 one.program one.distances.locator).2
  have agree : ∀ closure ∈ middle.heap.functions, ∀ node ∈ Statement.nodesAll closure.body,
      two.distances.find? node = one.distances.find? node := by
    intro closure member node inside
    rw [bodies closure member, List.mem_singleton] at inside
    rw [inside, found, known]
  have ran : machine.interpret 20 one.program one.distances.locator = (none, middle) :=
    Prod.ext finished rfl
  obtain ⟨both, accepted, ending⟩ := interpret_append first second one two (by decide +kernel)
    (by decide +kernel) before after 20 ⟨[], [], true⟩ (.still 0) (.empty none) middle ran agree
  rw [lines, nodes] at ending
  have failed : ((machine.run 20 first).2.run 20 second).1 =
      some (.failed ⟨4, .lexeme "missing", .undefinedVariable "missing"⟩) := by decide +kernel
  have written : ((machine.run 20 first).2.run 20 second).2.sink.written = "a\n".toUTF8 := by
    decide +kernel
  rw [run_of_compile before, run_of_compile after] at failed written
  exact ⟨one, two, both, middle, before, after, ran, count, agree, accepted, failed, written, ending⟩

/-- A function that is called from a later text may lose its parameter: the later text has no distance
for the reference, which then means a global variable. -/
theorem run_later_text_loses_parameter :
    let first := "func same(word)\n    ret word\n"
    let second := "print same('a')\n"
    let machine := start ⟨[], [], true⟩ (.still 0) (.empty none)
    let early := machine.run 20 first
    let late := early.2.run 20 second
    let joined := machine.run 20 (first ++ second)
    early.1 = none ∧
      late.1 = some (.failed ⟨2, .lexeme "word", .undefinedVariable "word"⟩) ∧
      late.2.sink.written = .empty ∧ joined.1 = none ∧ joined.2.sink.written = "a\n".toUTF8 := by
  decide +kernel

end Machine

end OffsideScript
