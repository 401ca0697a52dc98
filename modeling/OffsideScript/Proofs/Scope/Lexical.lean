/-
This file shows that the analysis of scopes computes lexical scoping. A position in a program is described by
the scopes that enclose it in the tree, without anything that the analysis carries along.
-/

import OffsideScript.Proofs.Scope.Resolution

namespace OffsideScript

/-- What makes a scope. -/
inductive Enclosure.Kind where
  | program
  | branch
  | loop
  | function (parameters : List Token)

namespace Enclosure.Kind

/-- The parameters of a scope. -/
def parameters : Enclosure.Kind → List Token
  | function parameters => parameters
  | _ => []

/-- Whether the scope is a function. -/
def isFunction : Enclosure.Kind → Bool
  | function _ => true
  | _ => false

/-- Whether the scope is the body of a loop. -/
def isLoop : Enclosure.Kind → Bool
  | loop => true
  | _ => false

end Enclosure.Kind

/-- A scope with the statement of its own list that leads to a position, and the statements before that. -/
structure Enclosure where
  kind : Enclosure.Kind
  before : List Statement
  statement : Statement

/-- Whether a name is a parameter of the scope or is declared, directly in its list of statements, by one
that starts before the position. -/
def Enclosure.declares (enclosure : Enclosure) (name : String) : Bool :=
  enclosure.kind.parameters.any (·.lexeme == name) ||
    (enclosure.before ++ [enclosure.statement]).any (·.declared? == some name)

/-- Where a statement stands: its own scope and the scopes around this one, innermost first. -/
structure Position where
  scope : Enclosure
  outer : List Enclosure

namespace Position

/-- The scopes of a position, innermost first. -/
def enclosures (position : Position) : List Enclosure :=
  position.scope :: position.outer

/-- The position with more scopes around it. -/
def under (position : Position) (outer : List Enclosure) : Position :=
  { position with outer := position.outer ++ outer }

end Position

mutual

/-- The positions inside a statement, without what is around it. -/
def Statement.positions : Statement → List Position
  | .branch branches => positionsBranches branches
  | .loop _ body => positionsAll .loop [] body
  | .function _ parameters body => positionsAll (.function parameters) [] body
  | _ => []

/-- The statements of a scope after the given ones, each followed by the positions inside of it. -/
def Statement.positionsAll (kind : Enclosure.Kind) (before : List Statement) :
    List Statement → List Position
  | [] => []
  | statement :: rest =>
      ⟨⟨kind, before, statement⟩, []⟩ ::
        statement.positions.map (·.under [⟨kind, before, statement⟩]) ++
          positionsAll kind (before ++ [statement]) rest

def Statement.positionsBranches : List (Expression × List Statement) → List Position
  | [] => []
  | (_, body) :: rest => positionsAll .branch [] body ++ positionsBranches rest

end

/-- All statements of a program in the order in which they start. -/
def Program.positions (program : Program) : List Position :=
  Statement.positionsAll .program [] program

/-- The references of a statement outside of the statements in it. -/
def Statement.ownReferences : Statement → List Reference
  | .print _ value => value.references
  | .evaluate value => value.references
  | .declare _ (some initial) => initial.references
  | .branch branches => branches.flatMap fun (condition, _) => condition.references
  | .loop condition _ => condition.references
  | .ret _ (some value) => value.references
  | _ => []

namespace Position

/-- The references that stand at a position. -/
def references (position : Position) : List Reference :=
  position.scope.statement.ownReferences

/-- The number of scopes between a reference and the innermost scope that declares its name. The last scope
is that of the program, which is not local. -/
def distance? (position : Position) (name : String) : Option Nat :=
  position.enclosures.dropLast.findIdx? (·.declares name)

/-- What the scopes of a position are. -/
def kinds (position : Position) : List Enclosure.Kind :=
  position.enclosures.map (·.kind)

/-- Whether there is a function around the position. -/
def inFunction (position : Position) : Bool :=
  position.kinds.any (·.isFunction)

/-- Whether there is a loop around the position inside the innermost function. -/
def inLoop (position : Position) : Bool :=
  (position.kinds.takeWhile (!·.isFunction)).any (·.isLoop)

/-- The faults of a statement itself: the reads of a variable in its own initial value, and a statement
that leaves a function or a loop outside of all of them. -/
def faults (position : Position) : List ScopeError :=
  match position.scope.statement with
  | .declare name (some initial) =>
      (initial.references.filter fun reference =>
        !reference.assigns && reference.name.lexeme == name.lexeme).map
          fun reference => .at reference.name .selfReference
  | .ret keyword _ => if position.inFunction then [] else [.at keyword .retOutsideFunction]
  | .breakLoop keyword => if position.inLoop then [] else [.at keyword .breakOutsideLoop]
  | .continueLoop keyword => if position.inLoop then [] else [.at keyword .continueOutsideLoop]
  | _ => []

/-- The entry that the table should have for a reference. -/
def entry? (position : Position) (reference : Reference) : Option (NodeId × Nat) :=
  (position.distance? reference.name.lexeme).map (reference.node, ·)

/-- The entries that the table should have for the references of a position. -/
def entries (position : Position) : List (NodeId × Nat) :=
  position.references.filterMap position.entry?

end Position

/-- What the analysis finds at a reference. -/
def Reference.findings (scopes : Scopes) (reference : Reference) : List Finding :=
  Finding.faultIf (!reference.assigns && scopes.isDeclaring reference.name.lexeme) reference.name
      .selfReference ++
    Finding.ofReference scopes reference.node reference.name

mutual

/-- The scopes around an expression are those around all of its references. -/
theorem Expression.findings_eq (scopes : Scopes) : ∀ expression : Expression,
    expression.findings scopes = expression.references.flatMap (Reference.findings scopes)
  | .constant _ => rfl
  | .group inner => inner.findings_eq scopes
  | .unary _ _ operand => operand.findings_eq scopes
  | .binary _ _ left right => by
      simp [findings, references, left.findings_eq scopes, right.findings_eq scopes]
  | .logical _ _ left right => by
      simp [findings, references, left.findings_eq scopes, right.findings_eq scopes]
  | .conditional condition whenTrue whenFalse => by
      simp [findings, references, condition.findings_eq scopes, whenTrue.findings_eq scopes,
        whenFalse.findings_eq scopes]
  | .variable node name => by simp [findings, references, Reference.findings]
  | .assign node name value => by
      simp [findings, references, Reference.findings, Finding.faultIf, value.findings_eq scopes]
  | .array elements => findingsAll_eq scopes elements
  | .map entries => findingsEntries_eq scopes entries
  | .call callee _ arguments => by
      simp [findings, references, callee.findings_eq scopes, findingsAll_eq scopes arguments]
  | .index object _ position => by
      simp [findings, references, object.findings_eq scopes, position.findings_eq scopes]
  | .setIndex object _ position value => by
      simp [findings, references, object.findings_eq scopes, position.findings_eq scopes,
        value.findings_eq scopes]

theorem Expression.findingsAll_eq (scopes : Scopes) : ∀ expressions : List Expression,
    findingsAll scopes expressions =
      (referencesAll expressions).flatMap (Reference.findings scopes)
  | [] => rfl
  | expression :: rest => by
      simp [findingsAll, referencesAll, expression.findings_eq scopes, findingsAll_eq scopes rest]

theorem Expression.findingsEntries_eq (scopes : Scopes) :
    ∀ entries : List (Expression × Expression),
      findingsEntries scopes entries =
        (referencesEntries entries).flatMap (Reference.findings scopes)
  | [] => rfl
  | (key, value) :: rest => by
      simp [findingsEntries, referencesEntries, key.findings_eq scopes, value.findings_eq scopes,
        findingsEntries_eq scopes rest]

end

/-- A fault is found if its condition holds. -/
theorem Finding.faultIf_faults (condition : Bool) (token : Token) (reason : ScopeError.Reason) :
    (faultIf condition token reason).filterMap fault? =
      if condition then [.at token reason] else [] := by
  cases condition <;> rfl

/-- A reference alone is no fault. -/
theorem Finding.ofReference_faults (scopes : Scopes) (node : NodeId) (name : Token) :
    (ofReference scopes node name).filterMap fault? = [] := by
  unfold ofReference
  cases scopes.distance? name.lexeme <;> rfl

namespace Expression

/-- The faults of an expression are its reads of variables that are being declared. -/
theorem findings_faults (scopes : Scopes) (expression : Expression) :
    (expression.findings scopes).filterMap Finding.fault? =
      (expression.references.filter fun reference =>
        !reference.assigns && scopes.isDeclaring reference.name.lexeme).map
          fun reference => .at reference.name .selfReference := by
  rw [expression.findings_eq]
  induction expression.references with
  | nil => rfl
  | cons reference rest ih =>
      rw [List.flatMap_cons, List.filterMap_append, ih, Reference.findings,
        List.filterMap_append, Finding.faultIf_faults, Finding.ofReference_faults,
        List.append_nil, List.filter_cons]
      split <;> rfl

/-- The distances of an expression are those of its references. -/
theorem findings_distances (scopes : Scopes) (expression : Expression) :
    (expression.findings scopes).filterMap Finding.distance? =
      expression.references.filterMap fun reference =>
        (scopes.distance? reference.name.lexeme).map (reference.node, ·) := by
  rw [expression.findings_eq]
  induction expression.references with
  | nil => rfl
  | cons reference rest ih =>
      rw [List.flatMap_cons, List.filterMap_append, ih, Reference.findings,
        List.filterMap_append, Finding.faultIf_distances, Finding.ofReference_distances,
        List.nil_append, List.filterMap_cons]
      cases scopes.distance? reference.name.lexeme <;> rfl

end Expression

/-- A scope of the analysis has the names that an enclosure declares. -/
def Scope.Names (scope : Scope) (enclosure : Enclosure) : Prop :=
  ∀ name, (scope.lookup name).isSome = enclosure.declares name

/-- Where all scopes have the right names, the distance is the lexical one. -/
theorem Scopes.distance?_eq_findIdx? {scopes : Scopes} {enclosures : List Enclosure}
    (names : List.Forall₂ Scope.Names scopes enclosures) (name : String) :
    scopes.distance? name = enclosures.dropLast.findIdx? (·.declares name) := by
  induction names with
  | nil => rfl
  | cons first rest ih =>
      cases rest with
      | nil => rfl
      | cons second rest =>
          rw [List.dropLast_cons_cons, List.findIdx?_cons, ← first name, ← ih]
          rfl

/-- The scope of parameters has their names. -/
theorem Scopes.lookup_ofParameters (parameters : List Token) (name : String) :
    ((ofParameters parameters).lookup name).isSome = parameters.any (·.lexeme == name) := by
  rw [Bool.eq_iff_iff, List.any_eq_true]
  constructor
  · intro found
    obtain ⟨complete, present⟩ := Option.isSome_iff_exists.mp found
    obtain ⟨parameter, member, same⟩ := (mem_ofParameters parameters _).mp (Scope.mem_of_lookup present)
    exact ⟨parameter, member, beq_iff_eq.mpr (congrArg Prod.fst same).symm⟩
  · rintro ⟨parameter, member, same⟩
    rw [← beq_iff_eq.mp same]
    exact Scope.lookup_isSome ((mem_ofParameters parameters _).mpr ⟨parameter, member, rfl⟩)

/-- What the analysis carries along when it comes to a statement after the given ones. -/
structure Arrives (context : Context) (scope : Scope) (around : Scopes) (kind : Enclosure.Kind)
    (before : List Statement) (outer : List Enclosure) : Prop where
  names : ∀ name, (scope.lookup name).isSome =
    (kind.parameters.any (·.lexeme == name) || before.any (·.declared? == some name))
  complete : ∀ name, scope.lookup name ≠ some false
  around : List.Forall₂ Scope.Names around outer
  inFunction : ∀ statement, context.inFunction = Position.inFunction ⟨⟨kind, before, statement⟩, outer⟩
  inLoop : ∀ statement, context.inLoop = Position.inLoop ⟨⟨kind, before, statement⟩, outer⟩

namespace Arrives

variable {context : Context} {scope : Scope} {around : Scopes} {kind : Enclosure.Kind}
  {before : List Statement} {outer : List Enclosure}

/-- A statement that declares nothing sees the scope as it was before. -/
theorem names_undeclared (arrives : Arrives context scope around kind before outer)
    {statement : Statement} (undeclared : statement.declared? = none) :
    List.Forall₂ Scope.Names (scope :: around) (⟨kind, before, statement⟩ :: outer) := by
  refine .cons (fun name => ?_) arrives.around
  rw [arrives.names, Enclosure.declares, List.any_append, List.any_cons, undeclared]
  simp

/-- A declaration sees its own name, whether or not it is complete. -/
theorem names_declared (arrives : Arrives context scope around kind before outer)
    {statement : Statement} {name : String} (declared : statement.declared? = some name)
    (complete : Bool) :
    List.Forall₂ Scope.Names (((name, complete) :: scope) :: around)
      (⟨kind, before, statement⟩ :: outer) := by
  refine .cons (fun sought => ?_) arrives.around
  rw [Enclosure.declares, List.any_append, List.any_cons, declared, ← Bool.or_assoc,
    ← arrives.names, List.lookup_cons]
  by_cases same : sought = name
  · simp [same]
  · rw [beq_eq_false_iff_ne.mpr same, show (some name == some sought) = (name == sought) from rfl,
      beq_eq_false_iff_ne.mpr (Ne.symm same)]
    simp

/-- The next statement of the same scope. -/
theorem next (arrives : Arrives context scope around kind before outer) (statement : Statement) :
    ∃ extended, statement.extend (scope :: around) = extended :: around ∧
      Arrives context extended around kind (before ++ [statement]) outer := by
  have moved (extended : Scope)
      (names : Scope.Names extended ⟨kind, before, statement⟩)
      (complete : ∀ name, extended.lookup name ≠ some false) :
      Arrives context extended around kind (before ++ [statement]) outer :=
    ⟨names, complete, arrives.around, arrives.inFunction, arrives.inLoop⟩
  have declaring (name : String) (declared : statement.declared? = some name) :
      Arrives context ((name, true) :: scope) around kind (before ++ [statement]) outer := by
    apply moved _ (List.forall₂_cons.mp (arrives.names_declared declared true)).1
    intro sought
    rw [List.lookup_cons]
    split
    · simp
    · exact arrives.complete sought
  cases statement with
  | declare name initial => exact ⟨_, rfl, declaring name.lexeme rfl⟩
  | function name parameters body => exact ⟨_, rfl, declaring name.lexeme rfl⟩
  | _ =>
      exact ⟨scope, rfl, moved scope (List.forall₂_cons.mp (arrives.names_undeclared rfl)).1
        arrives.complete⟩

/-- The first statement of a body inside a statement that declares nothing. -/
theorem body (arrives : Arrives context scope around kind before outer) {statement : Statement}
    (undeclared : statement.declared? = none) :
    Arrives context [] (scope :: around) .branch [] (⟨kind, before, statement⟩ :: outer) ∧
      Arrives { context with inLoop := true } [] (scope :: around) .loop []
        (⟨kind, before, statement⟩ :: outer) := by
  have names := arrives.names_undeclared undeclared
  have inFunction := arrives.inFunction statement
  have inLoop := arrives.inLoop statement
  constructor
  · refine ⟨fun _ => rfl, fun _ => by simp, names, fun _ => ?_, fun _ => ?_⟩
    · exact inFunction
    · exact inLoop
  · refine ⟨fun _ => rfl, fun _ => by simp, names, fun _ => ?_, fun _ => ?_⟩
    · exact inFunction
    · rfl

/-- The first statement of a function, which sees its own name and its parameters. -/
theorem function (arrives : Arrives context scope around kind before outer) (name : Token)
    (parameters : List Token) (body : List Statement) :
    Arrives ⟨true, false⟩ (Scopes.ofParameters parameters) (((name.lexeme, true) :: scope) :: around)
      (.function parameters) [] (⟨kind, before, .function name parameters body⟩ :: outer) := by
  refine ⟨fun sought => ?_, fun sought found => ?_, arrives.names_declared rfl true,
    fun _ => rfl, fun _ => rfl⟩
  · rw [Scopes.lookup_ofParameters, List.any_nil, Bool.or_false]
    rfl
  · obtain ⟨parameter, _, same⟩ :=
      (Scopes.mem_ofParameters parameters _).mp (Scope.mem_of_lookup found)
    cases congrArg Prod.snd same

end Arrives

/-- The findings are the faults of the positions, in order, and the entries of their references. -/
structure Accounts (findings : List Finding) (positions : List Position) : Prop where
  faults : findings.filterMap Finding.fault? = positions.flatMap Position.faults
  entries : (findings.filterMap Finding.distance?).Perm (positions.flatMap Position.entries)

/-- Findings of two lists of positions are those of both together. -/
theorem Accounts.append {first second : List Finding} {left right : List Position}
    (one : Accounts first left) (two : Accounts second right) :
    Accounts (first ++ second) (left ++ right) := by
  constructor
  · rw [List.filterMap_append, one.faults, two.faults, List.flatMap_append]
  · rw [List.filterMap_append, List.flatMap_append]
    exact one.entries.append two.entries

/-- A fault of the statement itself comes first. -/
theorem Accounts.cons {own inner : List Finding} {position : Position} {positions : List Position}
    (faults : own.filterMap Finding.fault? = position.faults)
    (entries : own.filterMap Finding.distance? = position.entries) (rest : Accounts inner positions) :
    Accounts (own ++ inner) (position :: positions) :=
  have single : Accounts own [position] := by
    constructor
    · rw [faults, List.flatMap_singleton]
    · rw [entries, List.flatMap_singleton]
  single.append rest

/-- The findings of a single position are its faults and its entries. -/
theorem Accounts.own {findings : List Finding} {position : Position}
    (faults : findings.filterMap Finding.fault? = position.faults)
    (entries : findings.filterMap Finding.distance? = position.entries) :
    Accounts findings [position] := by
  rw [← findings.append_nil]
  exact .cons faults entries ⟨rfl, .refl _⟩

/-- The references of an expression have the entries of the position at which it stands. -/
theorem Expression.findings_entries {scopes : Scopes} {position : Position}
    (names : List.Forall₂ Scope.Names scopes position.enclosures) (expression : Expression) :
    (expression.findings scopes).filterMap Finding.distance? =
      expression.references.filterMap position.entry? := by
  rw [expression.findings_distances]
  apply List.filterMap_congr
  intro reference _
  rw [Scopes.distance?_eq_findIdx? names, Position.entry?, Position.distance?]

/-- Outside of all declarations nothing is read before it is complete. -/
theorem Expression.findings_quiet {scopes : Scopes}
    (quiet : ∀ name, scopes.isDeclaring name = false) (expression : Expression) :
    (expression.findings scopes).filterMap Finding.fault? = [] := by
  rw [expression.findings_faults]
  simp [quiet]

/-- Scopes are put around a position one after another. -/
theorem Position.under_append (position : Position) (inner : Enclosure) (outer : List Enclosure) :
    (position.under [inner]).under outer = position.under (inner :: outer) := by
  simp [under]

/-- The positions of a list start with its first statement and what is inside of that. -/
theorem Statement.positionsAll_under (kind : Enclosure.Kind) (before : List Statement)
    (statement : Statement) (rest : List Statement) (outer : List Enclosure) :
    (positionsAll kind before (statement :: rest)).map (·.under outer) =
      (⟨⟨kind, before, statement⟩, outer⟩ ::
        statement.positions.map (·.under (⟨kind, before, statement⟩ :: outer))) ++
          (positionsAll kind (before ++ [statement]) rest).map (·.under outer) := by
  rw [positionsAll, List.map_append, List.map_cons, List.map_map]
  congr 3
  funext position
  exact position.under_append _ outer

namespace Arrives

variable {context : Context} {scope : Scope} {around : Scopes} {kind : Enclosure.Kind}
  {before : List Statement} {outer : List Enclosure}

/-- No declaration is incomplete when the analysis comes to a statement. -/
theorem quiet (arrives : Arrives context scope around kind before outer) (name : String) :
    Scopes.isDeclaring name (scope :: around) = false :=
  beq_eq_false_iff_ne.mpr (arrives.complete name)

/-- In the initial value of a variable only this variable is not complete. -/
theorem isDeclaring_bind (arrives : Arrives context scope around kind before outer)
    (name sought : String) :
    Scopes.isDeclaring sought (((name, false) :: scope) :: around) = (sought == name) := by
  rw [Scopes.isDeclaring, List.lookup_cons]
  cases sought == name with
  | true => rfl
  | false => exact arrives.quiet sought

/-- A return outside of all functions is a fault of its position. -/
theorem faultIf_inFunction (arrives : Arrives context scope around kind before outer)
    {statement : Statement} (keyword : Token) :
    (Finding.faultIf (!context.inFunction) keyword .retOutsideFunction).filterMap Finding.fault? =
      if Position.inFunction ⟨⟨kind, before, statement⟩, outer⟩ then []
      else [.at keyword .retOutsideFunction] := by
  rw [Finding.faultIf_faults, arrives.inFunction statement]
  cases Position.inFunction _ <;> rfl

/-- A break or a continue outside of all loops is a fault of its position. -/
theorem faultIf_inLoop (arrives : Arrives context scope around kind before outer)
    {statement : Statement} (keyword : Token) (reason : ScopeError.Reason) :
    (Finding.faultIf (!context.inLoop) keyword reason).filterMap Finding.fault? =
      if Position.inLoop ⟨⟨kind, before, statement⟩, outer⟩ then [] else [.at keyword reason] := by
  rw [Finding.faultIf_faults, arrives.inLoop statement]
  cases Position.inLoop _ <;> rfl

end Arrives

mutual

/-- The findings of a statement are those of the positions in it. -/
theorem Statement.findings_accounts {context : Context} {scope : Scope} {around : Scopes}
    {kind : Enclosure.Kind} {before : List Statement} {outer : List Enclosure}
    (arrives : Arrives context scope around kind before outer) : ∀ statement : Statement,
      Accounts (statement.findings context (scope :: around))
        (⟨⟨kind, before, statement⟩, outer⟩ ::
          statement.positions.map (·.under (⟨kind, before, statement⟩ :: outer)))
  | .print _ value =>
      .own (value.findings_quiet arrives.quiet)
        (value.findings_entries (arrives.names_undeclared rfl))
  | .evaluate value =>
      .own (value.findings_quiet arrives.quiet)
        (value.findings_entries (arrives.names_undeclared rfl))
  | .declare name none => .own rfl rfl
  | .declare name (some initial) => by
      apply Accounts.own
      · rw [findings, initial.findings_faults, Position.faults]
        simp only [Scopes.bind, arrives.isDeclaring_bind]
      · exact initial.findings_entries (arrives.names_declared rfl false)
  | .branch branches => by
      obtain ⟨faults, entries⟩ := findingsBranches_accounts (.mk ⟨kind, before, .branch branches⟩ outer)
        (arrives.body rfl).1 arrives.quiet branches
      constructor
      · exact faults
      · exact entries
  | .loop condition body =>
      .cons (condition.findings_quiet arrives.quiet)
        (condition.findings_entries (arrives.names_undeclared rfl))
        (findingsAll_accounts (arrives.body rfl).2 body)
  | .function name parameters body => by
      rw [← List.nil_append (findings context (scope :: around) _)]
      exact .cons rfl rfl (findingsAll_accounts (arrives.function name parameters body) body)
  | .ret keyword none => .own (arrives.faultIf_inFunction keyword) (Finding.faultIf_distances _ _ _)
  | .ret keyword (some value) => by
      apply Accounts.own
      · rw [findings, List.filterMap_append, arrives.faultIf_inFunction,
          value.findings_quiet arrives.quiet, List.append_nil]
        rfl
      · rw [findings, List.filterMap_append, Finding.faultIf_distances, List.nil_append]
        exact value.findings_entries (arrives.names_undeclared rfl)
  | .breakLoop keyword => .own (arrives.faultIf_inLoop keyword _) (Finding.faultIf_distances _ _ _)
  | .continueLoop keyword =>
      .own (arrives.faultIf_inLoop keyword _) (Finding.faultIf_distances _ _ _)

theorem Statement.findingsAll_accounts {context : Context} {scope : Scope} {around : Scopes}
    {kind : Enclosure.Kind} {before : List Statement} {outer : List Enclosure}
    (arrives : Arrives context scope around kind before outer) : ∀ statements : List Statement,
      Accounts (findingsAll context (scope :: around) statements)
        ((positionsAll kind before statements).map (·.under outer))
  | [] => ⟨rfl, .refl _⟩
  | statement :: rest => by
      obtain ⟨extended, same, next⟩ := arrives.next statement
      rw [positionsAll_under, findingsAll, same]
      exact (statement.findings_accounts arrives).append (findingsAll_accounts next rest)

theorem Statement.findingsBranches_accounts {context : Context} {scopes : Scopes} (position : Position)
    (arrives : Arrives context [] scopes .branch [] position.enclosures)
    (quiet : ∀ name, scopes.isDeclaring name = false) :
    ∀ branches : List (Expression × List Statement),
      (findingsBranches context scopes branches).filterMap Finding.fault? =
          ((positionsBranches branches).map (·.under position.enclosures)).flatMap Position.faults ∧
        ((findingsBranches context scopes branches).filterMap Finding.distance?).Perm
          ((branches.flatMap fun (condition, _) => condition.references).filterMap position.entry? ++
            ((positionsBranches branches).map (·.under position.enclosures)).flatMap Position.entries)
  | [] => ⟨rfl, .refl _⟩
  | (condition, body) :: rest => by
      have inner := findingsAll_accounts arrives body
      obtain ⟨faults, entries⟩ := findingsBranches_accounts position arrives quiet rest
      rw [findingsBranches, positionsBranches, List.map_append, List.flatMap_append,
        List.flatMap_append, List.flatMap_cons, List.filterMap_append, List.filterMap_append,
        List.filterMap_append, List.filterMap_append, List.filterMap_append,
        condition.findings_quiet quiet, condition.findings_entries arrives.around, faults,
        inner.faults]
      constructor
      · rfl
      · rw [List.append_assoc, List.append_assoc]
        apply List.Perm.append_left
        refine (inner.entries.append entries).trans ?_
        rw [← List.append_assoc, ← List.append_assoc]
        exact List.perm_append_comm.append_right _

end

/-- Scopes around positions change no references. -/
theorem Position.references_under (positions : List Position) (outer : List Enclosure) :
    (positions.map (·.under outer)).flatMap references = positions.flatMap references :=
  List.flatMap_map ..

mutual

/-- Every reference in a statement stands in exactly one of the statements in it. -/
theorem Statement.positions_references : ∀ statement : Statement,
    (statement.ownReferences ++ statement.positions.flatMap Position.references).Perm
      statement.references
  | .print _ value => by simp [ownReferences, positions, references]
  | .evaluate value => by simp [ownReferences, positions, references]
  | .declare _ none => .refl _
  | .declare _ (some initial) => by simp [ownReferences, positions, references]
  | .branch branches => positionsBranches_references branches
  | .loop condition body => (positionsAll_references .loop [] body).append_left _
  | .function _ parameters body => positionsAll_references (.function parameters) [] body
  | .ret _ none => .refl _
  | .ret _ (some value) => by simp [ownReferences, positions, references]
  | .breakLoop _ => .refl _
  | .continueLoop _ => .refl _

theorem Statement.positionsAll_references (kind : Enclosure.Kind) (before : List Statement) :
    ∀ statements : List Statement,
      ((positionsAll kind before statements).flatMap Position.references).Perm
        (referencesAll statements)
  | [] => .refl _
  | statement :: rest => by
      rw [positionsAll, List.flatMap_append, List.flatMap_cons, Position.references_under,
        referencesAll]
      exact statement.positions_references.append (positionsAll_references kind _ rest)

theorem Statement.positionsBranches_references :
    ∀ branches : List (Expression × List Statement),
      ((branches.flatMap fun (condition, _) => condition.references) ++
        (positionsBranches branches).flatMap Position.references).Perm (referencesBranches branches)
  | [] => .refl _
  | (condition, body) :: rest => by
      rw [positionsBranches, referencesBranches, List.flatMap_cons, List.flatMap_append,
        List.append_assoc, List.append_assoc]
      apply List.Perm.append_left
      refine .trans ?_ ((positionsAll_references .branch [] body).append
        (positionsBranches_references rest))
      rw [← List.append_assoc, ← List.append_assoc]
      exact List.perm_append_comm.append_right _

end

/-- The nodes that are recorded are among those that are asked for. -/
theorem Distances.recorded_sublist (answers : List (NodeId × Option Nat)) :
    ((answers.filterMap fun answer => answer.2.map (answer.1, ·)).map Prod.fst).Sublist
      (answers.map Prod.fst) := by
  induction answers with
  | nil => exact .refl _
  | cons answer rest ih =>
      obtain ⟨node, distance⟩ := answer
      cases distance with
      | none => exact ih.cons node
      | some hops => exact ih.cons_cons node

/-- A table of recorded distances answers for each of some nodes if these are different and it was made
from their answers. -/
theorem Distances.find?_of_answers {answers : List (NodeId × Option Nat)}
    (distinct : (answers.map Prod.fst).Nodup) {entries : List (NodeId × Nat)}
    (same : entries.Perm (answers.filterMap fun answer => answer.2.map (answer.1, ·)))
    {node : NodeId} {answer : Option Nat} (member : (node, answer) ∈ answers) :
    (entries.foldl (fun distances (node, hops) => distances.record node hops) empty).find? node =
      answer := by
  have recorded (hops : Nat) : (node, hops) ∈ entries ↔ (node, some hops) ∈ answers := by
    rw [same.mem_iff, List.mem_filterMap]
    simp
  have keys : (entries.map Prod.fst).Nodup := by
    apply (same.map Prod.fst).nodup_iff.mpr
    exact List.Nodup.sublist (recorded_sublist answers) distinct
  cases answer with
  | some hops => exact find?_foldl_of_mem entries empty keys node hops ((recorded hops).mpr member)
  | none =>
      rw [find?_foldl_of_notMem, find?_empty]
      intro present
      obtain ⟨⟨other, hops⟩, inside, rfl⟩ := List.mem_map.mp present
      have twin := List.inj_on_of_nodup_map distinct member ((recorded hops).mp inside) rfl
      cases congrArg Prod.snd twin

/-- The distances of the references of a statement, as they should be in the table. -/
def Position.answers (position : Position) : List (NodeId × Option Nat) :=
  position.references.map fun reference =>
    (reference.node, position.distance? reference.name.lexeme)

/-- The nodes with answers are those of the references. -/
theorem Position.answers_nodes (positions : List Position) :
    (positions.flatMap answers).map Prod.fst = (positions.flatMap references).map Reference.node := by
  rw [List.map_flatMap, List.map_flatMap]
  congr 1
  funext position
  rw [answers, List.map_map]
  rfl

/-- The answers that are not empty are the entries. -/
theorem Position.answers_entries (positions : List Position) :
    (positions.flatMap answers).filterMap (fun answer => answer.2.map (answer.1, ·)) =
      positions.flatMap entries := by
  rw [List.filterMap_flatMap]
  congr 1
  funext position
  rw [answers, List.filterMap_map]
  rfl

/-- At the start of a program there are no names and nothing is around it. -/
theorem Arrives.start : Arrives ⟨false, false⟩ [] [] .program [] [] :=
  ⟨fun _ => rfl, fun _ => nofun, .nil, fun _ => rfl, fun _ => rfl⟩

/-- The findings of a program are those of its positions. -/
theorem Program.findings_accounts (program : Program) :
    Accounts program.findings program.positions := by
  have accounts := Statement.findingsAll_accounts Arrives.start program
  have whole : (Statement.positionsAll .program [] program).map (·.under []) =
      program.positions := by
    simp [Position.under, positions]
  rwa [whole] at accounts

/-- The analysis of scopes computes lexical scoping. Every reference of a program stands in exactly one of
its statements, and the table gives it the number of scopes up to the innermost local scope that has its name
as a parameter or declares it by a statement that starts before the reference. The table has no other
entries. The faults are those of the statements, in their order. -/
theorem Program.resolve_lexical (program : Program)
    (distinct : (program.references.map Reference.node).Nodup) :
    (program.positions.flatMap Position.references).Perm program.references ∧
    (∀ position ∈ program.positions, ∀ reference ∈ position.references,
      program.resolve.1.find? reference.node = position.distance? reference.name.lexeme) ∧
    (∀ node, (∀ reference ∈ program.references, reference.node ≠ node) →
      program.resolve.1.find? node = none) ∧
    program.resolve.2 = program.positions.flatMap Position.faults := by
  have listed : (program.positions.flatMap Position.references).Perm program.references :=
    Statement.positionsAll_references .program [] program
  have accounts := program.findings_accounts
  have nodes : ((program.positions.flatMap Position.answers).map Prod.fst).Nodup := by
    rw [Position.answers_nodes]
    exact (listed.map Reference.node).nodup_iff.mpr distinct
  have made := accounts.entries.trans (.of_eq (Position.answers_entries program.positions).symm)
  refine ⟨listed, fun position member reference inside => ?_, fun node absent => ?_,
    accounts.faults⟩
  · apply Distances.find?_of_answers nodes made
    apply List.mem_flatMap.mpr
    exact ⟨position, member, List.mem_map.mpr ⟨reference, inside, rfl⟩⟩
  · change (Distances.ofFindings program.findings).find? node = none
    rw [Distances.ofFindings, Distances.find?_foldl_of_notMem, Distances.find?_empty]
    intro present
    have known := (Distances.recorded_sublist _).subset ((made.map Prod.fst).subset present)
    rw [Position.answers_nodes, (listed.map Reference.node).mem_iff] at known
    obtain ⟨reference, inside, same⟩ := List.mem_map.mp known
    exact absent reference inside same

/-- In the body of a loop in a function, a variable is read in its own initial value, the parameter of the
function is one scope further out, and a function in the body is not in the loop. -/
theorem Program.resolve_lexical_nested :
    let source := "func f(a)\n  while a\n    let b = b\n    print a\n    func g()\n      break\n"
    let program := (Program.ofTokens (Token.scan source).1).1
    (program.references.map Reference.node).Nodup ∧
    program.resolve.1.find? 1 = some 0 ∧ program.resolve.1.find? 2 = some 1 ∧
    program.resolve.2.map ScopeError.reason = [.selfReference, .breakOutsideLoop] := by
  intro source program
  have distinct : (program.references.map Reference.node).Nodup := by decide +kernel
  obtain ⟨_, found, _, faults⟩ := program.resolve_lexical distinct
  have lexical (node : NodeId) (distance : Option Nat)
      (shown : ∃ position ∈ program.positions, ∃ reference ∈ position.references,
        reference.node = node ∧ position.distance? reference.name.lexeme = distance) :
      program.resolve.1.find? node = distance := by
    obtain ⟨position, member, reference, inside, rfl, rfl⟩ := shown
    exact found position member reference inside
  refine ⟨distinct, lexical 1 _ (by decide +kernel), lexical 2 _ (by decide +kernel), ?_⟩
  rw [faults]
  decide +kernel

end OffsideScript
