import OffsideScript.Proofs.Scope.Extension
import OffsideScript.Proofs.Scope.Resolution

namespace OffsideScript

/-- A text compiles when each of its three stages gives no error. -/
theorem compile_of_stages {source : String} {tokens : List Token} {program : Program}
    {distances : Distances} (scanned : Token.scan source = (tokens, []))
    (read : Program.ofTokens tokens = (program, []))
    (resolved : program.resolve = (distances, [])) : compile source = .ok ⟨program, distances⟩ := by
  unfold compile parse
  rw [scanned]
  dsimp only
  rw [read]
  simp only [bind, Except.bind, resolved]

/-- The statements of two phrases, one behind the other, are derived together. -/
theorem Derives.append {first middle last : NodeId} {left right : List Token}
    {one two : List Statement} (before : Derives first left (.statements one) middle)
    (after : Derives middle right (.statements two) last) :
    Derives first (left ++ right) (.statements (one ++ two)) last := by
  induction one generalizing first left with
  | nil =>
      cases before
      exact after
  | cons statement one ih =>
      cases before with
      | nextStatement inner others =>
          rw [List.append_assoc]
          exact .nextStatement inner (ih others)

/-- No program starts with a block. -/
theorem Derives.starts_outside {first last : NodeId} {tokens : List Token} {trees : List Statement}
    (derives : Derives first tokens (.statements trees) last) :
    ∀ token rest, tokens = token :: rest → token.kind ≠ .indent := by
  cases derives with
  | noStatement => exact fun token rest shape => by cases shape
  | @nextStatement _ _ _ start others _ _ inner _ =>
      have opens : ∃ token rest, start = token :: rest ∧ token.kind ≠ .indent := by
        cases inner with
        | print starts | declare starts | declareValue starts | branch starts | loop starts
          | procedure starts | function starts | ret starts | retValue starts | breakLoop starts
          | continueLoop starts => exact ⟨_, _, rfl, by rw [starts]; decide⟩
        | evaluate _ inner =>
            obtain ⟨token, rest, rfl, opens⟩ := inner.opens
            exact ⟨token, _, rfl, opens.ne rfl⟩
      obtain ⟨first, tail, rfl, outside⟩ := opens
      intro token rest shape
      cases shape
      exact outside

namespace Program

/-- Before the end of the file there are the tokens without a marker of the end. -/
theorem takeWhile_inside {body rest : List Token} (inside : ∀ token ∈ body, token.kind ≠ .endOfFile) :
    (body ++ rest).takeWhile (·.kind ≠ .endOfFile) =
      body ++ rest.takeWhile (·.kind ≠ .endOfFile) :=
  List.takeWhile_append_of_pos fun token member => decide_eq_true (inside token member)

/-- Two programs are read one after the other. -/
theorem ofTokens_append {one two : List Token} {first second : Program} {lines : Nat}
    {body : List Token} {last : Token} {change : Token → Token}
    (readFirst : Program.ofTokens one = (first, []))
    (readSecond : Program.ofTokens two = (second, [])) (relines : Token.Relines change)
    (shape : one = body ++ [last]) (ends : last.kind = .endOfFile)
    (inside : ∀ token ∈ body, token.kind ≠ .endOfFile) :
    Program.ofTokens (body.map change ++ two.map (Token.lower lines)) =
      (first ++ second.relabel (.shift lines (allocated one)), []) := by
  have outside : ∀ token ∈ body.map change, token.kind ≠ .endOfFile := by
    intro token member
    obtain ⟨old, listed, rfl⟩ := List.mem_map.mp member
    rw [relines.kind]
    exact inside old listed
  obtain ⟨again, numbers⟩ := ofTokens_relines relines readFirst
  have before := derives_of_read again
  have whole : (one.map change).takeWhile (·.kind ≠ .endOfFile) = body.map change := by
    rw [shape, List.map_append, takeWhile_inside outside, List.map_singleton,
      List.takeWhile_cons_of_neg (by simp [relines.kind, ends]), List.append_nil]
  rw [whole, numbers] at before
  have after := derives_relabel (Relabeling.shift_steps lines (allocated one)) readSecond
  have start : (Relabeling.shift lines (allocated one)).node 0 = allocated one := Nat.zero_add _
  rw [start] at after
  apply ofTokens_of_derives
  rw [takeWhile_inside outside]
  have moved : (two.map (Token.lower lines)).takeWhile (·.kind ≠ .endOfFile) =
      (two.takeWhile (·.kind ≠ .endOfFile)).map
        (Token.relabel (.shift lines (allocated one))) := List.takeWhile_map
  rw [moved]
  exact before.append after

/-- A program that follows another one has no new faults. -/
theorem faults_append {first second : Program} {one two : Distances} (labels : Relabeling)
    (before : first.resolve = (one, [])) (after : second.resolve = (two, [])) :
    (resolve (first ++ second.relabel labels)).2 = [] := by
  change (findings (first ++ second.relabel labels)).filterMap Finding.fault? = []
  have left : first.findings.filterMap Finding.fault? = [] := congrArg Prod.snd before
  have right : second.findings.filterMap Finding.fault? = [] := congrArg Prod.snd after
  rw [findings_append, List.filterMap_append, left, List.nil_append, List.filterMap_map,
    List.filterMap_eq_nil_iff]
  intro finding member
  have clean := List.filterMap_eq_nil_iff.mp right finding member
  cases finding with
  | distance node hops => rfl
  | fault error => cases clean

/-- The names of two programs joined are found at the distances of each of them, with the nodes of the second
moved. -/
theorem distances_append (first second : Program) (lines nodes : Nat) :
    (findings (first ++ second.relabel (.shift lines nodes))).filterMap Finding.distance? =
      first.findings.filterMap Finding.distance? ++
        (second.findings.filterMap Finding.distance?).map fun entry => (entry.1 + nodes, entry.2) := by
  rw [findings_append, List.filterMap_append, List.filterMap_map, List.map_filterMap]
  congr 2
  funext finding
  cases finding <;> rfl

/-- The table of two programs holds the distances of the first, and those of the second under moved
numbers. -/
theorem find?_append {early late tokens : List Token} {first second : Program} {lines nodes : Nat}
    (readEarly : Program.ofTokens early = (first, []))
    (readLate : Program.ofTokens late = (second, []))
    (read : Program.ofTokens tokens = (first ++ second.relabel (.shift lines nodes), []))
    (node : NodeId) (hops : Nat) :
    (resolve (first ++ second.relabel (.shift lines nodes))).1.find? node = some hops ↔
      first.resolve.1.find? node = some hops ∨
        ∃ old, node = old + nodes ∧ second.resolve.1.find? old = some hops := by
  rw [find?_eq_some_iff read, find?_eq_some_iff readEarly, distances_append, List.mem_append,
    List.mem_map]
  apply or_congr_right
  constructor
  · rintro ⟨⟨old, _⟩, member, moved⟩
    cases moved
    exact ⟨old, rfl, (find?_eq_some_iff readLate _ _).mpr member⟩
  · rintro ⟨old, rfl, found⟩
    exact ⟨(old, hops), (find?_eq_some_iff readLate _ _).mp found, rfl⟩

end Program

/-- The concatenation of two texts that compile is read as one program after the other. -/
theorem exists_tokens_append {first second : String} {one two : Compiled}
    (ends : Text.EndsLine first.toList) (flush : Text.IsFlush second.toList)
    (before : compile first = .ok one) (after : compile second = .ok two) :
    ∃ tokens, Token.scan (first ++ second) = (tokens, []) ∧
      Program.ofTokens tokens = (one.program ++ two.program.relabel
        (.shift (Text.lineEnds first.toList) (Program.allocated (Token.scan first).1)), []) := by
  obtain ⟨early, scannedEarly, readEarly, _⟩ := compile_eq_ok before
  obtain ⟨late, scannedLate, readLate, _⟩ := compile_eq_ok after
  have outside : ∀ token rest, late = token :: rest → token.kind ≠ .indent := by
    rintro token rest rfl opens
    have starts := (Program.derives_of_read readLate).starts_outside
    rw [List.takeWhile_cons_of_pos (by simp [opens])] at starts
    exact starts token _ rfl opens
  obtain ⟨body, last, change, relines, shape, finishes, inside, scanned⟩ :=
    Token.scan_append ends flush scannedEarly scannedLate outside
  refine ⟨_, scanned, ?_⟩
  rw [scannedEarly]
  exact Program.ofTokens_append readEarly readLate relines shape finishes inside

/-- Two texts that compile on their own compile together. The program is the first one followed by the
second one, whose lines are moved by the line ends of the first text and whose numbers are moved by
those that the first text was given; the table joins both tables in the same way. -/
theorem compile_append (first second : String) (one two : Compiled)
    (ends : Text.EndsLine first.toList) (flush : Text.IsFlush second.toList)
    (before : compile first = .ok one) (after : compile second = .ok two) :
    ∃ both, compile (first ++ second) = .ok both ∧
      both.program = one.program ++ two.program.relabel
        (.shift (Text.lineEnds first.toList) (Program.allocated (Token.scan first).1)) ∧
      ∀ node hops, both.distances.find? node = some hops ↔
        one.distances.find? node = some hops ∨
          ∃ old, node = old + Program.allocated (Token.scan first).1 ∧
            two.distances.find? old = some hops := by
  obtain ⟨tokens, scanned, read⟩ := exists_tokens_append ends flush before after
  obtain ⟨early, _, readEarly, resolvedEarly⟩ := compile_eq_ok before
  obtain ⟨late, _, readLate, resolvedLate⟩ := compile_eq_ok after
  have faultless := Program.faults_append
    (.shift (Text.lineEnds first.toList) (Program.allocated (Token.scan first).1))
    resolvedEarly resolvedLate
  have table := Program.find?_append readEarly readLate read
  rw [resolvedEarly, resolvedLate] at table
  exact ⟨_, compile_of_stages scanned read (Prod.ext rfl faultless), rfl, table⟩

/-- A function and a block that calls it compile together, and each name is found at its own distance. -/
theorem compile_append_function :
    ∃ one two both, compile "func same(word)\n    ret word\n" = .ok one ∧
      compile "if true\n    let held = same('a')\n    print held\n" = .ok two ∧
      compile ("func same(word)\n    ret word\n" ++
        "if true\n    let held = same('a')\n    print held\n") = .ok both ∧
      both.program = one.program ++ two.program.relabel (.shift 2 1) ∧
      both.distances.find? 0 = some 0 ∧ both.distances.find? 2 = some 0 := by
  obtain ⟨one, before, foundEarly⟩ := compile_of_check "func same(word)\n    ret word\n"
    (fun compiled => compiled.distances.find? 0 == some 0) (by decide +kernel)
  obtain ⟨two, after, foundLate⟩ :=
    compile_of_check "if true\n    let held = same('a')\n    print held\n"
      (fun compiled => compiled.distances.find? 1 == some 0) (by decide +kernel)
  have lines : Text.lineEnds "func same(word)\n    ret word\n".toList = 2 := by decide +kernel
  have nodes : Program.allocated (Token.scan "func same(word)\n    ret word\n").1 = 1 := by
    decide +kernel
  obtain ⟨both, accepted, program, table⟩ := compile_append _ _ one two
    (by decide +kernel) (by decide +kernel) before after
  rw [lines, nodes] at program
  rw [nodes] at table
  exact ⟨one, two, both, before, after, accepted, program,
    (table 0 0).mpr (.inl (beq_iff_eq.mp foundEarly)),
    (table 2 0).mpr (.inr ⟨1, rfl, beq_iff_eq.mp foundLate⟩)⟩

end OffsideScript
