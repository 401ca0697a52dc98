import OffsideScript.Proofs.Machine.Configuration

namespace OffsideScript

variable {α β : Type}

namespace Exec

/-- A silent action neither uses nor changes the sink. -/
def Silent (action : Exec α) : Prop :=
  ∀ (machine : Machine) (sink : Sink),
    action { machine with sink } = mapState (fun after => { after with sink }) (action machine)

namespace Silent

/-- The sink is the same after a silent action. -/
theorem sink {action : Exec α} (silent : Silent action) (machine : Machine) :
    (finalState (action machine)).sink = machine.sink := by
  have same : action machine = _ := silent machine machine.sink
  rw [same]
  cases action machine <;> rfl

/-- Silent actions are silent one after another. -/
theorem bind {action : Exec α} {next : α → Exec β} (first : Silent action)
    (second : ∀ value, Silent (next value)) : Silent (action >>= next) := by
  intro machine sink
  have same := first machine sink
  cases ran : action machine with
  | ok value middle =>
      rw [ran] at same
      rw [bind_of_ok same, bind_of_ok ran]
      exact second value middle sink
  | error halt middle =>
      rw [ran] at same
      rw [bind_of_error same, bind_of_error ran]
      rfl

theorem pure (value : α) : Silent (pure value) := fun _ _ => rfl

/-- An error is silent. -/
theorem fail (token : Token) (reason : RuntimeError.Reason) : Silent (fail token reason : Exec α) :=
  fun _ _ => rfl

/-- An action may depend on the machine that it starts on, apart from the sink. -/
theorem get {action : Machine → Exec α} (silent : ∀ machine, Silent (action machine))
    (same : ∀ machine sink, action { machine with sink } = action machine) :
    Silent (do action (← get)) := by
  intro machine sink
  rw [get_bind, get_bind, same machine sink]
  exact silent machine machine sink

/-- The test for the number of arguments is silent. -/
theorem checkArity (closing : Token) (expected found : Nat) :
    Silent (checkArity closing expected found) := by
  unfold Exec.checkArity
  split
  · exact .pure _
  · exact .fail _ _

/-- The call of a builtin is silent. -/
theorem callBuiltin (closing : Token) (ref : BuiltinRef) (arguments : List Value) :
    Silent (callBuiltin closing ref arguments) := by
  refine (checkArity closing ref.arity arguments.length).bind fun _ =>
    .get (fun machine => ?_) fun _ _ => rfl
  cases machine.library[ref.slot]? with
  | none => exact .pure _
  | some builtin =>
      intro machine sink
      change Exec.perform closing builtin arguments _ =
        mapState _ (Exec.perform closing builtin arguments _)
      unfold Exec.perform
      cases builtin.action arguments machine.host <;> rfl

/-- Finding a variable is silent. -/
theorem locate (node : NodeId) (name : String) : Silent (locate node name) :=
  .get (fun _ => .pure _) fun _ _ => rfl

/-- Reading a variable is silent. -/
theorem read (node : NodeId) (name : Token) : Silent (read node name) := by
  refine (locate node name.lexeme).bind fun place => .get (fun machine => ?_) fun _ _ => rfl
  dsimp only
  split
  · exact .pure _
  · exact .fail _ _

/-- Assigning a variable is silent. -/
theorem assign (node : NodeId) (name : Token) (value : Value) :
    Silent (assign node name value) := by
  refine (locate node name.lexeme).bind fun place => ?_
  cases place with
  | none => exact .fail _ _
  | some ref =>
      refine .get (fun machine => ?_) fun _ _ => rfl
      split
      · exact fun _ _ => rfl
      · exact .fail _ _

end Silent

/-- Soundless actions are silent. -/
theorem Soundless.silent {action : Token → Exec α} (soundless : Soundless action) (token : Token) :
    Silent (action token) := by
  induction soundless with
  | fail reason _ => exact .fail token reason
  | bind _ _ first second => exact first.bind second
  | heap step _ => exact fun _ _ => rfl
  | callBuiltin ref arguments => exact .callBuiltin token ref arguments

end Exec

/-- What a primitive action prints, with the keyword of the statement. -/
def Primitive.printed? : {α : Type} → Primitive α → Option (Token × Value)
  | _, .print keyword value => some (keyword, value)
  | _, _ => none

/-- All primitive actions but one are silent. -/
theorem Primitive.silent {primitive : Primitive α} (quiet : primitive.printed? = none) :
    Exec.Silent primitive.perform := by
  by_cases operation : primitive.isOperation = true
  · obtain ⟨token, action, soundless, same⟩ := Primitive.soundless operation
    rw [same]
    exact soundless.silent token
  · cases primitive with
    | read node name => exact .read node name
    | assign node name value => exact .assign node name value
    | print keyword value => cases quiet
    | unary | binary | expectContainer | element | checkElement | setElement | callBuiltin
    | checkArity => exact absurd rfl operation
    | _ => exact fun _ _ => rfl

namespace Sink

variable {sink : Sink} {text : String} {limit : Nat}

/-- The sink with more bytes. -/
def put (sink : Sink) (bytes : ByteArray) : Sink :=
  { sink with written := sink.written ++ bytes }

/-- Without a limit all bytes are written. -/
theorem write_unlimited (unlimited : sink.limit = none) :
    sink.write text = (true, sink.put text.toUTF8) := by
  simp only [write, unlimited, put]

/-- Bytes that fit are all written. -/
theorem write_within (limited : sink.limit = some limit)
    (room : sink.written.size + text.toUTF8.size ≤ limit) :
    sink.write text = (true, sink.put text.toUTF8) := by
  have fits : text.toUTF8.size ≤ limit - sink.written.size := by omega
  simp only [write, limited, if_pos fits, put]

/-- Of bytes that do not fit the first ones are written. -/
theorem write_beyond (limited : sink.limit = some limit) (within : sink.written.size ≤ limit)
    (full : limit < sink.written.size + text.toUTF8.size) :
    sink.write text =
      (false, sink.put (text.toUTF8.extract 0 (limit - sink.written.size))) := by
  have exceeds : ¬text.toUTF8.size ≤ limit - sink.written.size := by omega
  simp only [write, limited, if_neg exceeds, put]

end Sink

namespace Machine

/-- The machine with a limit of its output. -/
def limited (limit : Nat) (machine : Machine) : Machine :=
  { machine with sink.limit := some limit }

/-- The machine with more output. -/
def put (machine : Machine) (bytes : ByteArray) : Machine :=
  { machine with sink := machine.sink.put bytes }

/-- The bytes that a machine has put out. -/
def output (machine : Machine) : ByteArray := machine.sink.written

/-- The bytes of the line that prints a value. -/
def line (machine : Machine) (value : Value) : ByteArray :=
  (machine.heap.display value ++ "\n").toUTF8

/-- Bytes are put behind the output. -/
theorem output_put (machine : Machine) (bytes : ByteArray) :
    (machine.put bytes).output = machine.output ++ bytes := rfl

end Machine

/-- The error of a print that goes beyond the limit of the output. -/
def RuntimeError.outputLimit (keyword : Token) : RuntimeError :=
  .at keyword (.output "output limit reached")

namespace Exec

variable {machine : Machine} {limit : Nat}

/-- A silent action does the same with a limit. -/
theorem Silent.limited {action : Exec α} (silent : Silent action) (limit : Nat)
    (machine : Machine) :
    action (machine.limited limit) = mapState (Machine.limited limit) (action machine) := by
  have same := silent machine { machine.sink with limit := some limit }
  have kept := silent.sink machine
  change action (machine.limited limit) = _ at same
  rw [same]
  cases ran : action machine with
  | ok value after | error halt after =>
      rw [ran] at kept
      simp only [mapState, Machine.limited, ← kept, finalState]

/-- Without a limit a line is printed. -/
theorem print_unlimited (unlimited : machine.sink.limit = none) (keyword : Token) (value : Value) :
    print keyword value machine = .ok () (machine.put (machine.line value)) := by
  simp only [print, Sink.write_unlimited unlimited]
  rfl

/-- A line that fits is printed. -/
theorem print_within (keyword : Token) {value : Value}
    (room : machine.output.size + (machine.line value).size ≤ limit) :
    print keyword value (machine.limited limit) =
      .ok () ((machine.put (machine.line value)).limited limit) := by
  have wrote : (machine.limited limit).sink.write
      ((machine.limited limit).heap.display value ++ "\n") = _ := Sink.write_within rfl room
  simp only [print, wrote]
  rfl

/-- Of a line that does not fit the first bytes are printed, and the print fails. -/
theorem print_beyond (keyword : Token) {value : Value} (within : machine.output.size ≤ limit)
    (full : limit < machine.output.size + (machine.line value).size) :
    print keyword value (machine.limited limit) =
      .error (.error (.outputLimit keyword)) ((machine.put
        ((machine.line value).extract 0 (limit - machine.output.size))).limited limit) := by
  have wrote : (machine.limited limit).sink.write
      ((machine.limited limit).heap.display value ++ "\n") = _ := Sink.write_beyond rfl within full
  simp only [print, wrote]
  rfl

end Exec

namespace Primitive

variable {machine : Machine} {limit : Nat}

/-- Without a limit a primitive action puts out nothing, or it prints a line. -/
theorem output (primitive : Primitive α) (unlimited : machine.sink.limit = none) :
    (finalState (primitive.perform machine)).sink = machine.sink ∨
      ∃ keyword value, primitive.printed? = some (keyword, value) ∧
        (finalState (primitive.perform machine)).sink =
          machine.sink.put (machine.line value) := by
  cases quiet : primitive.printed? with
  | none => exact .inl ((silent quiet).sink machine)
  | some printed =>
      cases primitive with
      | print keyword value =>
          refine .inr ⟨keyword, value, quiet.symm, ?_⟩
          change (finalState (Exec.print keyword value machine)).sink = _
          rw [Exec.print_unlimited unlimited]
          rfl
      | _ => cases quiet

/-- A primitive action whose output stays within a limit does the same with the limit. -/
theorem perform_limited (primitive : Primitive α) (unlimited : machine.sink.limit = none)
    (room : (finalState (primitive.perform machine)).output.size ≤ limit) :
    primitive.perform (machine.limited limit) =
      mapState (Machine.limited limit) (primitive.perform machine) := by
  cases quiet : primitive.printed? with
  | none => exact (silent quiet).limited limit machine
  | some printed =>
      cases primitive with
      | print keyword value =>
          have printed : (Primitive.print keyword value).perform machine =
              .ok () (machine.put (machine.line value)) := Exec.print_unlimited unlimited keyword value
          rw [printed] at room ⊢
          rw [finalState_ok, Machine.output_put, ByteArray.size_append] at room
          exact Exec.print_within keyword room
      | _ => cases quiet

end Primitive

namespace Configuration

/-- The configuration with a limit of its output. -/
def limited (limit : Nat) (point : Configuration) : Configuration :=
  { point with machine := point.machine.limited limit }

/-- What a run prints next, with the keyword of the statement. -/
def pendingPrint? : Configuration → Option (Token × Value)
  | ⟨.running (.act primitive _), _, _⟩ => primitive.printed?
  | _ => none

variable {first second last : Configuration} {limit : Nat}

/-- A step without a limit puts out nothing, or it prints a line. -/
theorem Step.output (next : Step first second) (unlimited : first.machine.sink.limit = none) :
    second.machine.sink = first.machine.sink ∨
      ∃ keyword value, first.pendingPrint? = some (keyword, value) ∧
        second.machine.sink = first.machine.sink.put (first.machine.line value) := by
  cases next with
  | @act _ _ primitive _ _ _ _ _ ran | @fail _ _ primitive _ _ _ _ _ ran =>
      have output := primitive.output unlimited
      rw [ran] at output
      exact output
  | enter setting _ _ _ _ | resume _ setting _ _ _ _ _ | unwind _ setting _ _ _ _ _ =>
      cases setting <;> exact .inl rfl

/-- A step whose output stays within a limit is also a step with the limit. -/
theorem Step.limited (next : Step first second) (unlimited : first.machine.sink.limit = none)
    (room : second.machine.output.size ≤ limit) :
    Step (first.limited limit) (second.limited limit) := by
  cases next with
  | @act _ _ primitive _ _ machine _ _ ran =>
      have fits : (finalState (primitive.perform machine)).output.size ≤ limit := by
        rw [ran]
        exact room
      have same := primitive.perform_limited unlimited fits
      rw [ran] at same
      exact .act same
  | @fail _ _ primitive _ _ machine _ _ ran =>
      have fits : (finalState (primitive.perform machine)).output.size ≤ limit := by
        rw [ran]
        exact room
      have same := primitive.perform_limited unlimited fits
      rw [ran] at same
      exact .fail same
  | enter setting request next stack machine =>
      cases setting <;> exact .enter _ request next stack (machine.limited limit)
  | resume value setting environment loopDepth next rest machine =>
      cases setting <;> exact .resume value _ environment loopDepth next rest (machine.limited limit)
  | unwind error setting environment loopDepth next rest machine =>
      cases setting <;> exact .unwind error _ environment loopDepth next rest (machine.limited limit)

/-- A run without a limit only adds to its output. -/
theorem Steps.output {count : Nat} (steps : Steps count first last)
    (unlimited : first.machine.sink.limit = none) :
    last.machine.sink.limit = none ∧
      ∃ more, last.machine.output = first.machine.output ++ more := by
  induction steps with
  | refl => exact ⟨unlimited, .empty, by simp⟩
  | @step _ first second last next _ ih =>
      obtain same | ⟨_, value, _, put⟩ := next.output unlimited
      · rw [same] at ih
        obtain ⟨still, more, rest⟩ := ih unlimited
        exact ⟨still, more, by rw [rest, Machine.output, same, Machine.output]⟩
      · rw [put] at ih
        obtain ⟨still, more, rest⟩ := ih unlimited
        refine ⟨still, first.machine.line value ++ more, ?_⟩
        rw [rest, ← ByteArray.append_assoc]
        exact congrArg (· ++ more) (congrArg Sink.written put)

/-- The output does not get shorter. -/
theorem Steps.output_size_le {count : Nat} (steps : Steps count first last)
    (unlimited : first.machine.sink.limit = none) :
    first.machine.output.size ≤ last.machine.output.size := by
  obtain ⟨_, more, rest⟩ := steps.output unlimited
  rw [rest, ByteArray.size_append]
  exact Nat.le_add_right _ _

/-- A run that starts without a limit gets none. -/
theorem Step.unlimited (next : Step first second) (unlimited : first.machine.sink.limit = none) :
    second.machine.sink.limit = none :=
  (Steps.output (.step next (.refl second)) unlimited).1

/-- As long as its output stays within a limit, a run is the same with the limit. -/
theorem Comes.limited (comes : first.Comes last) (unlimited : first.machine.sink.limit = none)
    (room : last.machine.output.size ≤ limit) :
    (first.limited limit).Comes (last.limited limit) := by
  obtain ⟨count, steps⟩ := comes
  induction steps with
  | refl => exact .refl _
  | step next rest ih =>
      have still := next.unlimited unlimited
      have fits := Nat.le_trans (rest.output_size_le still) room
      exact .step (next.limited unlimited fits) (ih still room)

/-- A run whose output goes beyond a limit does so when it prints a line. -/
theorem Comes.crossing (comes : first.Comes last) (unlimited : first.machine.sink.limit = none)
    (room : first.machine.output.size ≤ limit) (beyond : limit < last.machine.output.size) :
    ∃ crossing keyword value, first.Comes crossing ∧ crossing.Comes last ∧
      crossing.pendingPrint? = some (keyword, value) ∧ crossing.machine.output.size ≤ limit ∧
      limit < crossing.machine.output.size + (crossing.machine.line value).size ∧
      ∃ more, last.machine.output =
        crossing.machine.output ++ crossing.machine.line value ++ more := by
  obtain ⟨count, steps⟩ := comes
  induction steps with
  | refl => exact absurd beyond (Nat.not_lt_of_le room)
  | @step _ first second last next rest ih =>
      have still := next.unlimited unlimited
      by_cases fits : second.machine.output.size ≤ limit
      · obtain ⟨crossing, keyword, value, before, after⟩ := ih still fits beyond
        exact ⟨crossing, keyword, value, .step next before, after⟩
      · obtain same | ⟨keyword, value, pending, put⟩ := next.output unlimited
        · exact absurd (same ▸ room : second.machine.sink.written.size ≤ limit) fits
        · have output : second.machine.output =
              first.machine.output ++ first.machine.line value := congrArg Sink.written put
          obtain ⟨_, more, extended⟩ := rest.output still
          rw [output] at extended
          rw [output, ByteArray.size_append] at fits
          exact ⟨first, keyword, value, .refl first, .step next ⟨_, rest⟩, pending, room,
            Nat.lt_of_not_le fits, more, extended⟩

/-- With a limit, the print that goes beyond it keeps what fits and fails. -/
theorem step_beyond {point : Configuration} {keyword : Token} {value : Value}
    (pending : point.pendingPrint? = some (keyword, value))
    (room : point.machine.output.size ≤ limit)
    (beyond : limit < point.machine.output.size + (point.machine.line value).size) :
    Step (point.limited limit)
      ⟨.failed (.outputLimit keyword), point.stack, (point.machine.put ((point.machine.line
        value).extract 0 (limit - point.machine.output.size))).limited limit⟩ := by
  unfold pendingPrint? at pending
  split at pending
  · rename_i primitive _ _ machine
    cases primitive with
    | print _ _ =>
        cases pending
        exact .fail (Exec.print_beyond keyword room beyond)
    | _ => cases pending
  · cases pending

/-- A run that has failed does nothing else. -/
theorem Comes.failed {error : RuntimeError} (comes : first.Comes last)
    (failed : first.control = .failed error) : last.control = .failed error := by
  obtain ⟨count, steps⟩ := comes
  induction steps with
  | refl => exact failed
  | step next _ ih =>
      cases next with
      | unwind other => exact ih (by cases failed; rfl)
      | _ => cases failed

end Configuration

/-- The first bytes of some output end inside the line that goes beyond them. -/
theorem extract_inside {before line more : ByteArray} {limit : Nat} (room : before.size ≤ limit)
    (beyond : limit < before.size + line.size) :
    (before ++ line ++ more).extract 0 limit =
      before ++ line.extract 0 (limit - before.size) := by
  have whole := @ByteArray.extract_zero_max_size before limit
  rw [Nat.max_eq_left room] at whole
  have none : limit - (before.size + line.size) = 0 := Nat.sub_eq_zero_of_le (Nat.le_of_lt beyond)
  rw [ByteArray.extract_append, ByteArray.extract_append, ByteArray.size_append, Nat.zero_sub,
    Nat.zero_sub, none, ByteArray.extract_same, ByteArray.append_empty, whole]

namespace Machine

/-- A limit of the output only cuts a run short. If a run without a limit ends within the limit, the run with
the limit ends in the same way and with the same output. If the run without a limit comes beyond the limit,
whether or not it ends, the run with the limit is the same up to the print whose line crosses the limit. It
fails at the keyword of this print, does nothing from there on but give up, and has put out exactly the first
bytes of the run without a limit. -/
theorem output_limit_truncates (files : FileSystem) (clock : Clock) (limit : Nat) (program : Program)
    (locator : Locator) :
    let unlimited := start files clock (.empty none)
    let limited := start files clock (.empty (some limit))
    (∀ failure after, unlimited.Ends program locator failure after →
      after.output.size ≤ limit → limited.Ends program locator failure (after.limited limit)) ∧
    ∀ point, (unlimited.launch program locator).Comes point → limit < point.machine.output.size →
      ∃ crossing keyword value,
        (unlimited.launch program locator).Comes crossing ∧ crossing.Comes point ∧
        crossing.pendingPrint? = some (keyword, value) ∧
        crossing.machine.output.size ≤ limit ∧
        limit < crossing.machine.output.size + (crossing.machine.line value).size ∧
        (limited.launch program locator).Comes (crossing.limited limit) ∧
        (∀ later, (crossing.limited limit).Comes later →
          later = crossing.limited limit ∨ later.control = .failed (.outputLimit keyword)) ∧
        ∃ after, limited.Ends program locator (some (.outputLimit keyword)) after ∧
          after.output = point.machine.output.extract 0 limit ∧
          after.host = crossing.machine.host := by
  intro unlimited limited
  have start : (unlimited.launch program locator).machine.sink.limit = none := rfl
  have nothing : (unlimited.launch program locator).machine.output.size ≤ limit := Nat.zero_le limit
  constructor
  · intro failure after ends room
    rw [ends_iff] at ends ⊢
    cases failure <;> exact ends.limited start room
  · intro point comes beyond
    obtain ⟨crossing, keyword, value, before, rest, pending, room, exceeds, more, output⟩ :=
      comes.crossing start nothing beyond
    have same : (limited.launch program locator).Comes (crossing.limited limit) :=
      before.limited start room
    have fails := Configuration.step_beyond pending room exceeds
    refine ⟨crossing, keyword, value, before, rest, pending, room, exceeds, same, ?_, ?_⟩
    · rintro later ⟨_, steps⟩
      cases steps with
      | refl => exact .inl rfl
      | step next steps =>
          cases next.unique fails
          exact .inr (Configuration.Comes.failed ⟨_, steps⟩ rfl)
    · obtain ⟨after, gives, host, sink⟩ := Configuration.comes_unwound (.outputLimit keyword)
        crossing.stack ((crossing.machine.put ((crossing.machine.line
          value).extract 0 (limit - crossing.machine.output.size))).limited limit)
      refine ⟨after, ends_iff.mpr (same.trans (.step fails gives)), ?_, host⟩
      rw [output, extract_inside room exceeds]
      exact congrArg Sink.written sink

/-- Of the lines true and false, a limit of seven bytes keeps the first and two bytes of the second, and a
limit of eleven bytes keeps both. -/
theorem output_limit_truncates_second_line :
    let keyword : Token := ⟨.printWord, "print", 1, none⟩
    let program : Program := [.print keyword (.constant (.boolean true)),
      .print keyword (.constant (.boolean false))]
    let locator := Distances.empty.locator
    (∃ token after, (start ⟨[], [], true⟩ (.still 0) (.empty (some 7))).Ends program locator
        (some (.outputLimit token)) after ∧ after.output = "true\nfa".toUTF8) ∧
    ∃ after, (start ⟨[], [], true⟩ (.still 0) (.empty (some 11))).Ends program locator none after ∧
      after.output = "true\nfalse\n".toUTF8 := by
  intro keyword program locator
  let machine := start ⟨[], [], true⟩ (.still 0) (.empty none)
  let last := finalState (Exec.executeProgram 3 program (machine.ready locator))
  obtain ⟨_, ran⟩ := eq_ok_of_succeeded
    (by decide +kernel : succeeded (Exec.executeProgram 3 program (machine.ready locator)) = true)
  have comes : (machine.launch program locator).Comes (.ended none last) := by
    have through : (machine.launch (program ++ []) locator).Comes _ := Configuration.comes_rest ran
    rwa [List.append_nil] at through
  have written : last.output = "true\nfalse\n".toUTF8 := by decide +kernel
  have size : last.output.size = 11 := by decide +kernel
  have kept : last.output.extract 0 7 = "true\nfa".toUTF8 := by decide +kernel
  clear_value last
  constructor
  · obtain ⟨_, token, _, _, _, _, _, _, _, _, after, ends, output, _⟩ :=
      (output_limit_truncates ⟨[], [], true⟩ (.still 0) 7 program locator).2 _ comes
        (Nat.lt_of_lt_of_eq (by decide) size.symm)
    exact ⟨token, after, ends, output.trans kept⟩
  · exact ⟨last.limited 11, (output_limit_truncates ⟨[], [], true⟩ (.still 0) 11 program locator).1 none last
      (ends_iff.mpr comes) (Nat.le_of_eq size), written⟩

end Machine

end OffsideScript
