import OffsideScript.Proofs.Grammar.Moving
import OffsideScript.Proofs.Scope.Table

namespace OffsideScript

/-- The error on its new line. -/
def ScopeError.relabel (labels : Relabeling) (error : ScopeError) : ScopeError :=
  { error with line := labels.line error.line }

/-- The finding with new labels. -/
def Finding.relabel (labels : Relabeling) : Finding → Finding
  | distance node hops => distance (labels.node node) hops
  | fault error => fault (error.relabel labels)

/-- The same scopes, the second time with more names in the global one whose declarations are complete.
-/
inductive Scopes.Widens : Scopes → Scopes → Prop where
  | globals {names : Scope} (scope : Scope) (complete : ∀ entry ∈ names, entry.2 = true) :
      Widens [scope] [scope ++ names]
  | inner {few many : Scopes} (scope : Scope) (outer : Widens few many) :
      Widens (scope :: few) (scope :: many)

namespace Scopes.Widens

variable {few many : Scopes}

/-- Scopes with one more name are widened alike. -/
theorem bind (widens : Widens few many) (name : String) (complete : Bool) :
    Widens (few.bind name complete) (many.bind name complete) := by
  cases widens with
  | globals scope whole => exact .globals ((name, complete) :: scope) whole
  | inner scope outer => exact .inner ((name, complete) :: scope) outer

/-- Scopes behind a statement are widened alike. -/
theorem extend (widens : Widens few many) (statement : Statement) :
    Widens (statement.extend few) (statement.extend many) := by
  cases statement with
  | declare name initial => exact widens.bind name.lexeme true
  | function name parameters body => exact widens.bind name.lexeme true
  | _ => exact widens

/-- Names are found at the same distances from wider scopes. -/
theorem distance?_eq (widens : Widens few many) (name : String) :
    many.distance? name = few.distance? name := by
  induction widens with
  | globals => rfl
  | inner scope outer ih =>
      cases outer with
      | globals => rfl
      | inner next outer => simp only [distance?, ih]

/-- Names whose declarations are complete are not being declared. -/
theorem isDeclaring_eq (widens : Widens few many) (name : String) :
    many.isDeclaring name = few.isDeclaring name := by
  cases widens with
  | inner scope outer => rfl
  | @globals names scope complete =>
      change ((scope ++ names).lookup name == some false) = (scope.lookup name == some false)
      rw [List.lookup_append]
      cases scope.lookup name with
      | some found => rfl
      | none =>
          rw [Option.none_or]
          cases found : names.lookup name with
          | none => rfl
          | some entered =>
              obtain ⟨before, after, rfl, _⟩ := List.lookup_eq_some_iff.mp found
              have whole := complete (name, entered) (by simp)
              simp_all

end Scopes.Widens

section Relabel

variable (labels : Relabeling)

/-- A fault is found on its new line. -/
theorem Finding.faultIf_relabel (condition : Bool) (token : Token) (reason : ScopeError.Reason) :
    faultIf condition (token.relabel labels) reason =
      (faultIf condition token reason).map (relabel labels) := by
  cases condition <;> rfl

/-- A reference is found alike from wider scopes. -/
theorem Finding.ofReference_relabel {few many : Scopes} (widens : few.Widens many)
    (node : NodeId) (name : Token) :
    ofReference many (labels.node node) (name.relabel labels) =
      (ofReference few node name).map (relabel labels) := by
  have same : many.distance? (name.relabel labels).lexeme = few.distance? name.lexeme :=
    widens.distance?_eq name.lexeme
  unfold ofReference
  rw [same]
  cases few.distance? name.lexeme <;> rfl

/-- The scope of parameters does not depend on their lines. -/
theorem Scopes.ofParameters_relabel (parameters : List Token) :
    Scopes.ofParameters (parameters.map (Token.relabel labels)) = Scopes.ofParameters parameters :=
  List.foldl_map

/-- A statement declares the same names on any lines. -/
theorem Statement.extend_relabel (scopes : Scopes) (statement : Statement) :
    (statement.relabel labels).extend scopes = statement.extend scopes := by
  cases statement <;> rfl

mutual

/-- An expression is analysed alike from wider scopes. -/
theorem Expression.findings_relabel {few many : Scopes} (widens : few.Widens many) :
    ∀ expression : Expression, (expression.relabel labels).findings many =
      (expression.findings few).map (Finding.relabel labels)
  | .constant _ => rfl
  | .group inner => inner.findings_relabel widens
  | .unary _ _ operand => operand.findings_relabel widens
  | .binary _ _ left right | .logical _ _ left right => by
      simp only [relabel, findings, List.map_append, left.findings_relabel widens,
        right.findings_relabel widens]
  | .conditional condition whenTrue whenFalse => by
      simp only [relabel, findings, List.map_append, condition.findings_relabel widens,
        whenTrue.findings_relabel widens, whenFalse.findings_relabel widens]
  | .variable node name => by
      have same : many.isDeclaring (name.relabel labels).lexeme = few.isDeclaring name.lexeme :=
        widens.isDeclaring_eq name.lexeme
      simp only [relabel, findings, List.map_append, same, Finding.faultIf_relabel,
        Finding.ofReference_relabel labels widens]
  | .assign node name value => by
      simp only [relabel, findings, List.map_append, value.findings_relabel widens,
        Finding.ofReference_relabel labels widens]
  | .array elements => findingsAll_relabel widens elements
  | .map entries => findingsEntries_relabel widens entries
  | .call callee _ arguments => by
      simp only [relabel, findings, List.map_append, callee.findings_relabel widens,
        findingsAll_relabel widens arguments]
  | .index object _ position => by
      simp only [relabel, findings, List.map_append, object.findings_relabel widens,
        position.findings_relabel widens]
  | .setIndex object _ position value => by
      simp only [relabel, findings, List.map_append, object.findings_relabel widens,
        position.findings_relabel widens, value.findings_relabel widens]

theorem Expression.findingsAll_relabel {few many : Scopes} (widens : few.Widens many) :
    ∀ expressions : List Expression, findingsAll many (relabelAll labels expressions) =
      (findingsAll few expressions).map (Finding.relabel labels)
  | [] => rfl
  | expression :: rest => by
      simp only [relabelAll, findingsAll, List.map_append, expression.findings_relabel widens,
        findingsAll_relabel widens rest]

theorem Expression.findingsEntries_relabel {few many : Scopes} (widens : few.Widens many) :
    ∀ entries : List (Expression × Expression),
      findingsEntries many (relabelEntries labels entries) =
        (findingsEntries few entries).map (Finding.relabel labels)
  | [] => rfl
  | (key, value) :: rest => by
      simp only [relabelEntries, findingsEntries, List.map_append, key.findings_relabel widens,
        value.findings_relabel widens, findingsEntries_relabel widens rest]

end

mutual

/-- A statement is analysed alike from wider scopes. -/
theorem Statement.findings_relabel (context : Context) {few many : Scopes}
    (widens : few.Widens many) : ∀ statement : Statement,
    (statement.relabel labels).findings context many =
      (statement.findings context few).map (Finding.relabel labels)
  | .print _ value => value.findings_relabel labels widens
  | .evaluate value => value.findings_relabel labels widens
  | .declare _ none => rfl
  | .declare name (some initial) => initial.findings_relabel labels (widens.bind name.lexeme false)
  | .branch branches => findingsBranches_relabel context widens branches
  | .loop condition body => by
      simp only [relabel, findings, List.map_append, condition.findings_relabel labels widens,
        findingsAll_relabel { context with inLoop := true } (widens.inner []) body]
  | .function name parameters body => by
      have inside := (widens.bind name.lexeme true).inner (Scopes.ofParameters parameters)
      simp only [relabel, findings, Scopes.ofParameters_relabel]
      exact findingsAll_relabel ⟨true, false⟩ inside body
  | .ret keyword none => Finding.faultIf_relabel labels _ keyword _
  | .ret keyword (some value) => by
      simp only [relabel, findings, Option.map_some, List.map_append, Finding.faultIf_relabel,
        value.findings_relabel labels widens]
  | .breakLoop keyword => Finding.faultIf_relabel labels _ keyword _
  | .continueLoop keyword => Finding.faultIf_relabel labels _ keyword _

theorem Statement.findingsAll_relabel (context : Context) {few many : Scopes}
    (widens : few.Widens many) : ∀ statements : List Statement,
    findingsAll context many (relabelAll labels statements) =
      (findingsAll context few statements).map (Finding.relabel labels)
  | [] => rfl
  | statement :: rest => by
      simp only [relabelAll, findingsAll, List.map_append, extend_relabel,
        statement.findings_relabel context widens,
        findingsAll_relabel context (widens.extend statement) rest]

theorem Statement.findingsBranches_relabel (context : Context) {few many : Scopes}
    (widens : few.Widens many) : ∀ branches : List (Expression × List Statement),
    findingsBranches context many (relabelBranches labels branches) =
      (findingsBranches context few branches).map (Finding.relabel labels)
  | [] => rfl
  | (condition, body) :: rest => by
      simp only [relabelBranches, findingsBranches, List.map_append,
        condition.findings_relabel labels widens,
        findingsAll_relabel context (widens.inner []) body,
        findingsBranches_relabel context widens rest]

end

end Relabel

/-- What follows statements is seen from the scopes behind them. -/
theorem Statement.findingsAll_append (context : Context) (scopes : Scopes)
    (before after : List Statement) :
    findingsAll context scopes (before ++ after) = findingsAll context scopes before ++
      findingsAll context (before.foldl (fun scopes statement => statement.extend scopes) scopes)
        after := by
  induction before generalizing scopes with
  | nil => rfl
  | cons statement before ih => simp only [List.cons_append, findingsAll, ih, List.append_assoc,
      List.foldl_cons]

/-- The declarations of a program widen the global scope. -/
theorem Program.scopes_widen (program : Program) :
    Scopes.Widens [[]]
      (program.foldl (fun scopes statement => statement.extend scopes) [[]]) := by
  have grows : ∀ (program : Program) (scope : Scope), (∀ entry ∈ scope, entry.2 = true) →
      ∃ names : Scope, (∀ entry ∈ names, entry.2 = true) ∧
        program.foldl (fun scopes statement => statement.extend scopes) [scope] = [names] := by
    intro program
    induction program with
    | nil => exact fun scope whole => ⟨scope, whole, rfl⟩
    | cons statement rest ih =>
        intro scope whole
        have bound (name : Token) := ih ((name.lexeme, true) :: scope)
          (List.forall_mem_cons.mpr ⟨rfl, whole⟩)
        cases statement with
        | declare name initial => exact bound name
        | function name parameters body => exact bound name
        | _ => exact ih scope whole
  obtain ⟨names, whole, same⟩ := grows program [] (fun _ member => absurd member List.not_mem_nil)
  rw [same]
  exact .globals [] whole

/-- The analysis of two programs one after the other. -/
theorem Program.findings_append (one two : Program) (labels : Relabeling) :
    Program.findings (one ++ two.relabel labels) =
      one.findings ++ two.findings.map (Finding.relabel labels) := by
  unfold Program.findings
  rw [Statement.findingsAll_append]
  exact congrArg _ (Statement.findingsAll_relabel labels _ one.scopes_widen two)

namespace Program

/-- A table holds exactly the distances that the analysis has found. -/
theorem find?_eq_some_iff {tokens : List Token} {program : Program}
    (read : Program.ofTokens tokens = (program, [])) (node : NodeId) (hops : Nat) :
    program.resolve.1.find? node = some hops ↔
      (node, hops) ∈ program.findings.filterMap Finding.distance? := by
  have distinct := ofTokens_nodup tokens
  rw [read, ← program.sites_references] at distinct
  have keys := distinct.sublist (Site.entries_sublist program.sites)
  rw [← program.findings_distances] at keys
  constructor
  · intro found
    refine Decidable.byContradiction fun absent => ?_
    by_cases recorded : node ∈ (program.findings.filterMap Finding.distance?).map Prod.fst
    · obtain ⟨⟨_, other⟩, member, rfl⟩ := List.mem_map.mp recorded
      have twin := Distances.find?_foldl_of_mem _ .empty keys _ _ member
      cases twin.symm.trans found
      exact absent member
    · have missing := Distances.find?_foldl_of_notMem _ .empty _ recorded
      rw [Distances.find?_empty] at missing
      cases missing.symm.trans found
  · exact Distances.find?_foldl_of_mem _ .empty keys node hops

/-- Only numbers that were given have a distance. -/
theorem distances_below {tokens : List Token} {program : Program}
    (read : Program.ofTokens tokens = (program, [])) {node : NodeId} {hops : Nat}
    (found : (node, hops) ∈ program.findings.filterMap Finding.distance?) :
    (node : Nat) < allocated tokens := by
  rw [program.findings_distances] at found
  have listed : node ∈ program.references.map Reference.node := by
    rw [← program.sites_references]
    exact (Site.entries_sublist _).subset (List.mem_map_of_mem found)
  exact nodes_below read ((Statement.referencesAll_perm program).mem_iff.mp listed)

end Program

end OffsideScript
