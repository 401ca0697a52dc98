/-
This file lists the nodes of a program in the order in which the analysis of scopes comes to them, each
with the scopes around it. A scope is seen both as far as it is declared before the node and as a whole.
-/

import OffsideScript.Proofs.Tree.Parts
import OffsideScript.Scope.Finding
import OffsideScript.Tree.Reference
import Mathlib.Data.List.Flatten

namespace OffsideScript

/-- The name that a statement declares in the scope in which it stands. -/
def Statement.declared? : Statement → Option String
  | .declare name _ => some name.lexeme
  | .function name _ _ => some name.lexeme
  | _ => none

/-- A scope as it is at a node, with the names that it declares anywhere. -/
structure Frame where
  scope : Scope
  declared : List String

/-- The frame of a block before its first statement. -/
def Frame.ofBody (body : List Statement) : Frame :=
  ⟨[], body.filterMap Statement.declared?⟩

/-- The frame of a function before its first statement. -/
def Frame.ofFunction (parameters : List Token) (body : List Statement) : Frame :=
  ⟨Scopes.ofParameters parameters,
    parameters.map (·.lexeme) ++ body.filterMap Statement.declared?⟩

@[simp] theorem Frame.ofBody_scope (body : List Statement) : (ofBody body).scope = [] := rfl

@[simp] theorem Frame.ofFunction_scope (parameters : List Token) (body : List Statement) :
    (ofFunction parameters body).scope = Scopes.ofParameters parameters := rfl

/-- The frames around a place in a program, innermost first. The last one is the global frame. -/
abbrev Frames := List Frame

namespace Frames

/-- The scopes of the frames. -/
def scopes (frames : Frames) : Scopes :=
  frames.map Frame.scope

/-- The frames with a name in the innermost scope. -/
def bind (name : String) (complete : Bool) : Frames → Frames
  | [] => [⟨[(name, complete)], []⟩]
  | frame :: outer => ⟨(name, complete) :: frame.scope, frame.declared⟩ :: outer

/-- The frames after a statement. -/
def extend (frames : Frames) (statement : Statement) : Frames :=
  match statement.declared? with
  | some name => frames.bind name true
  | none => frames

@[simp] theorem scopes_cons (frame : Frame) (frames : Frames) :
    scopes (frame :: frames) = frame.scope :: frames.scopes := rfl

@[simp] theorem scopes_bind (name : String) (complete : Bool) (frames : Frames) :
    (frames.bind name complete).scopes = frames.scopes.bind name complete := by
  cases frames <;> rfl

@[simp] theorem scopes_extend (frames : Frames) (statement : Statement) :
    (frames.extend statement).scopes = statement.extend frames.scopes := by
  cases statement <;> simp [extend, Statement.declared?, Statement.extend]

end Frames

/-- An expression, the target of an assignment, or a statement with what encloses it. -/
inductive Site.Node where
  | expression (value : Expression)
  | target (node : NodeId) (name : Token)
  | statement (context : Context) (step : Statement)

/-- A node with the frames around it. -/
structure Site where
  node : Site.Node
  frames : Frames

mutual

/-- The target of an assignment comes after the assigned value. -/
def Expression.sites (frames : Frames) (expression : Expression) : List Site :=
  ⟨.expression expression, frames⟩ ::
    match expression with
    | .constant _ => []
    | .group inner => inner.sites frames
    | .unary _ _ operand => operand.sites frames
    | .binary _ _ left right => left.sites frames ++ right.sites frames
    | .logical _ _ left right => left.sites frames ++ right.sites frames
    | .conditional condition whenTrue whenFalse =>
        condition.sites frames ++ whenTrue.sites frames ++ whenFalse.sites frames
    | .variable _ _ => []
    | .assign node name value => value.sites frames ++ [⟨.target node name, frames⟩]
    | .array elements => sitesAll frames elements
    | .map entries => sitesEntries frames entries
    | .call callee _ arguments => callee.sites frames ++ sitesAll frames arguments
    | .index object _ position => object.sites frames ++ position.sites frames
    | .setIndex object _ position value =>
        object.sites frames ++ position.sites frames ++ value.sites frames

def Expression.sitesAll (frames : Frames) : List Expression → List Site
  | [] => []
  | expression :: rest => expression.sites frames ++ sitesAll frames rest

def Expression.sitesEntries (frames : Frames) : List (Expression × Expression) → List Site
  | [] => []
  | (key, value) :: rest => key.sites frames ++ value.sites frames ++ sitesEntries frames rest

end

mutual

/-- While the initial value of a variable is computed, its declaration is not complete. A function is
declared before its own body. -/
def Statement.sites (context : Context) (frames : Frames) (statement : Statement) : List Site :=
  ⟨.statement context statement, frames⟩ ::
    match statement with
    | .print _ value => value.sites frames
    | .evaluate value => value.sites frames
    | .declare _ none => []
    | .declare name (some initial) => initial.sites (frames.bind name.lexeme false)
    | .branch branches => sitesBranches context frames branches
    | .loop condition body =>
        condition.sites frames ++
          sitesAll { context with inLoop := true } (Frame.ofBody body :: frames) body
    | .function name parameters body =>
        sitesAll ⟨true, false⟩
          (Frame.ofFunction parameters body :: frames.bind name.lexeme true) body
    | .ret _ none => []
    | .ret _ (some value) => value.sites frames
    | .breakLoop _ => []
    | .continueLoop _ => []

def Statement.sitesAll (context : Context) (frames : Frames) : List Statement → List Site
  | [] => []
  | statement :: rest =>
      statement.sites context frames ++ sitesAll context (frames.extend statement) rest

def Statement.sitesBranches (context : Context) (frames : Frames) :
    List (Expression × List Statement) → List Site
  | [] => []
  | (condition, body) :: rest =>
      condition.sites frames ++ sitesAll context (Frame.ofBody body :: frames) body ++
        sitesBranches context frames rest

end

section Parts

variable {frames : Frames} {site : Site}

/-- The nodes of an expression are among those of a list that has it. -/
theorem Expression.mem_sitesAll {expressions : List Expression} {part : Expression}
    (member : part ∈ expressions) (inside : site ∈ part.sites frames) :
    site ∈ sitesAll frames expressions := by
  induction member with
  | head rest => exact List.mem_append_left _ inside
  | tail first _ ih => exact List.mem_append_right _ ih

/-- The nodes of a pair are among those of a list that has it. -/
theorem Expression.mem_sitesEntries {entries : List (Expression × Expression)}
    {entry : Expression × Expression} (member : entry ∈ entries)
    (inside : site ∈ entry.1.sites frames ++ entry.2.sites frames) :
    site ∈ sitesEntries frames entries := by
  induction member with
  | head rest => exact List.mem_append_left _ inside
  | tail first _ ih => exact List.mem_append_right _ ih

/-- The nodes of the parts of an expression are nodes of the expression. -/
theorem Expression.mem_sites_of_child {expression part : Expression}
    (member : part ∈ expression.children) (inside : site ∈ part.sites frames) :
    site ∈ expression.sites frames := by
  cases expression with
  | array elements => exact List.mem_cons_of_mem _ (mem_sitesAll member inside)
  | map entries =>
      obtain ⟨entry, listed, isPart⟩ := List.mem_flatMap.mp member
      refine List.mem_cons_of_mem _ (mem_sitesEntries listed ?_)
      simp only [List.mem_cons, List.not_mem_nil, or_false] at isPart
      rcases isPart with rfl | rfl
      · exact List.mem_append_left _ inside
      · exact List.mem_append_right _ inside
  | call callee closing arguments =>
      refine List.mem_cons_of_mem _ (List.mem_append.mpr ?_)
      rcases List.mem_cons.mp member with rfl | listed
      · exact .inl inside
      · exact .inr (mem_sitesAll listed inside)
  | constant | «variable» => cases member
  | group | unary | assign =>
      cases List.mem_singleton.mp member
      simp [sites, inside]
  | binary | logical | index =>
      simp only [children, List.mem_cons, List.not_mem_nil, or_false] at member
      rcases member with rfl | rfl <;> simp [sites, inside]
  | conditional | setIndex =>
      simp only [children, List.mem_cons, List.not_mem_nil, or_false] at member
      rcases member with rfl | rfl | rfl <;> simp [sites, inside]

variable {context : Context}

/-- The nodes of a branch are among those of a list that has it. -/
theorem Statement.mem_sitesBranches {branches : List (Expression × List Statement)}
    {branch : Expression × List Statement} (member : branch ∈ branches)
    (inside : site ∈ branch.1.sites frames ++
      sitesAll context (Frame.ofBody branch.2 :: frames) branch.2) :
    site ∈ sitesBranches context frames branches := by
  induction member with
  | head rest => exact List.mem_append_left _ inside
  | tail first _ ih => exact List.mem_append_right _ ih

end Parts

/-- The nodes of a program, seen from the global scope. -/
def Program.sites (program : Program) : List Site :=
  Statement.sitesAll ⟨false, false⟩ [⟨[], []⟩] program

/-- What the analysis of scopes finds at a node itself. -/
def Site.findings (site : Site) : List Finding :=
  match site.node with
  | .expression (.variable node name) =>
      Finding.faultIf (site.frames.scopes.isDeclaring name.lexeme) name .selfReference ++
        Finding.ofReference site.frames.scopes node name
  | .target node name => Finding.ofReference site.frames.scopes node name
  | .statement context (.ret keyword _) =>
      Finding.faultIf (!context.inFunction) keyword .retOutsideFunction
  | .statement context (.breakLoop keyword) =>
      Finding.faultIf (!context.inLoop) keyword .breakOutsideLoop
  | .statement context (.continueLoop keyword) =>
      Finding.faultIf (!context.inLoop) keyword .continueOutsideLoop
  | _ => []

mutual

/-- The findings of an expression are those of its nodes. -/
theorem Expression.sites_findings (frames : Frames) : ∀ expression : Expression,
    (expression.sites frames).flatMap Site.findings = expression.findings frames.scopes
  | .constant _ => rfl
  | .group inner => by simp [sites, findings, Site.findings, inner.sites_findings frames]
  | .unary _ _ operand => by simp [sites, findings, Site.findings, operand.sites_findings frames]
  | .binary _ _ left right => by
      simp [sites, findings, Site.findings, left.sites_findings frames,
        right.sites_findings frames]
  | .logical _ _ left right => by
      simp [sites, findings, Site.findings, left.sites_findings frames,
        right.sites_findings frames]
  | .conditional condition whenTrue whenFalse => by
      simp [sites, findings, Site.findings, condition.sites_findings frames,
        whenTrue.sites_findings frames, whenFalse.sites_findings frames]
  | .variable node name => by simp [sites, findings, Site.findings]
  | .assign node name value => by
      simp [sites, findings, Site.findings, value.sites_findings frames]
  | .array elements => by
      simp [sites, findings, Site.findings, sitesAll_findings frames elements]
  | .map entries => by
      simp [sites, findings, Site.findings, sitesEntries_findings frames entries]
  | .call callee _ arguments => by
      simp [sites, findings, Site.findings, callee.sites_findings frames,
        sitesAll_findings frames arguments]
  | .index object _ position => by
      simp [sites, findings, Site.findings, object.sites_findings frames,
        position.sites_findings frames]
  | .setIndex object _ position value => by
      simp [sites, findings, Site.findings, object.sites_findings frames,
        position.sites_findings frames, value.sites_findings frames]

theorem Expression.sitesAll_findings (frames : Frames) : ∀ expressions : List Expression,
    (sitesAll frames expressions).flatMap Site.findings = findingsAll frames.scopes expressions
  | [] => rfl
  | expression :: rest => by
      simp [sitesAll, findingsAll, expression.sites_findings frames,
        sitesAll_findings frames rest]

theorem Expression.sitesEntries_findings (frames : Frames) :
    ∀ entries : List (Expression × Expression),
      (sitesEntries frames entries).flatMap Site.findings =
        findingsEntries frames.scopes entries
  | [] => rfl
  | (key, value) :: rest => by
      simp [sitesEntries, findingsEntries, key.sites_findings frames,
        value.sites_findings frames, sitesEntries_findings frames rest]

end

mutual

/-- The findings of a statement are those of its nodes. -/
theorem Statement.sites_findings (context : Context) (frames : Frames) :
    ∀ statement : Statement,
      (statement.sites context frames).flatMap Site.findings =
        statement.findings context frames.scopes
  | .print _ value => by simp [sites, findings, Site.findings, value.sites_findings]
  | .evaluate value => by simp [sites, findings, Site.findings, value.sites_findings]
  | .declare _ none => rfl
  | .declare name (some initial) => by
      simp [sites, findings, Site.findings, initial.sites_findings]
  | .branch branches => by
      simp [sites, findings, Site.findings, sitesBranches_findings context frames branches]
  | .loop condition body => by
      simp [sites, findings, Site.findings, condition.sites_findings,
        sitesAll_findings _ (Frame.ofBody body :: frames) body]
  | .function name parameters body => by
      simp [sites, findings, Site.findings,
        sitesAll_findings _ (Frame.ofFunction parameters body :: frames.bind name.lexeme true) body]
  | .ret keyword none => by simp [sites, findings, Site.findings]
  | .ret keyword (some value) => by
      simp [sites, findings, Site.findings, value.sites_findings]
  | .breakLoop _ => by simp [sites, findings, Site.findings]
  | .continueLoop _ => by simp [sites, findings, Site.findings]

theorem Statement.sitesAll_findings (context : Context) (frames : Frames) :
    ∀ statements : List Statement,
      (sitesAll context frames statements).flatMap Site.findings =
        findingsAll context frames.scopes statements
  | [] => rfl
  | statement :: rest => by
      simp [sitesAll, findingsAll, statement.sites_findings context frames,
        sitesAll_findings context (frames.extend statement) rest]

theorem Statement.sitesBranches_findings (context : Context) (frames : Frames) :
    ∀ branches : List (Expression × List Statement),
      (sitesBranches context frames branches).flatMap Site.findings =
        findingsBranches context frames.scopes branches
  | [] => rfl
  | (condition, body) :: rest => by
      simp [sitesBranches, findingsBranches, condition.sites_findings,
        sitesAll_findings context (Frame.ofBody body :: frames) body,
        sitesBranches_findings context frames rest]

end

/-- The analysis of scopes comes to exactly the listed nodes, in this order and with these scopes. -/
theorem Program.sites_findings (program : Program) :
    program.sites.flatMap Site.findings = program.findings :=
  Statement.sitesAll_findings ⟨false, false⟩ [⟨[], []⟩] program

/-- The reference that a node is. -/
def Site.reference? (site : Site) : Option Reference :=
  match site.node with
  | .expression (.variable node name) => some ⟨node, false, name⟩
  | .target node name => some ⟨node, true, name⟩
  | _ => none

mutual

/-- The references of an expression are those of its nodes. -/
theorem Expression.sites_references (frames : Frames) : ∀ expression : Expression,
    (expression.sites frames).filterMap Site.reference? = expression.references
  | .constant _ => rfl
  | .group inner => by
      simp [sites, references, Site.reference?, List.filterMap_cons, inner.sites_references]
  | .unary _ _ operand => by
      simp [sites, references, Site.reference?, List.filterMap_cons, operand.sites_references]
  | .binary _ _ left right => by
      simp [sites, references, Site.reference?, List.filterMap_cons, left.sites_references,
        right.sites_references]
  | .logical _ _ left right => by
      simp [sites, references, Site.reference?, List.filterMap_cons, left.sites_references,
        right.sites_references]
  | .conditional condition whenTrue whenFalse => by
      simp [sites, references, Site.reference?, List.filterMap_cons, condition.sites_references,
        whenTrue.sites_references, whenFalse.sites_references]
  | .variable node name => rfl
  | .assign node name value => by
      simp [sites, references, Site.reference?, List.filterMap_cons, value.sites_references]
  | .array elements => by
      simp [sites, references, Site.reference?, List.filterMap_cons,
        sitesAll_references frames elements]
  | .map entries => by
      simp [sites, references, Site.reference?, List.filterMap_cons,
        sitesEntries_references frames entries]
  | .call callee _ arguments => by
      simp [sites, references, Site.reference?, List.filterMap_cons, callee.sites_references,
        sitesAll_references frames arguments]
  | .index object _ position => by
      simp [sites, references, Site.reference?, List.filterMap_cons, object.sites_references,
        position.sites_references]
  | .setIndex object _ position value => by
      simp [sites, references, Site.reference?, List.filterMap_cons, object.sites_references,
        position.sites_references, value.sites_references]

theorem Expression.sitesAll_references (frames : Frames) : ∀ expressions : List Expression,
    (sitesAll frames expressions).filterMap Site.reference? = referencesAll expressions
  | [] => rfl
  | expression :: rest => by
      simp [sitesAll, referencesAll, expression.sites_references,
        sitesAll_references frames rest]

theorem Expression.sitesEntries_references (frames : Frames) :
    ∀ entries : List (Expression × Expression),
      (sitesEntries frames entries).filterMap Site.reference? = referencesEntries entries
  | [] => rfl
  | (key, value) :: rest => by
      simp [sitesEntries, referencesEntries, key.sites_references, value.sites_references,
        sitesEntries_references frames rest]

end

mutual

/-- The references of a statement are those of its nodes. -/
theorem Statement.sites_references (context : Context) (frames : Frames) :
    ∀ statement : Statement,
      (statement.sites context frames).filterMap Site.reference? = statement.references
  | .print _ value => by
      simp [sites, references, Site.reference?, List.filterMap_cons, value.sites_references]
  | .evaluate value => by
      simp [sites, references, Site.reference?, List.filterMap_cons, value.sites_references]
  | .declare _ none => rfl
  | .declare _ (some initial) => by
      simp [sites, references, Site.reference?, List.filterMap_cons, initial.sites_references]
  | .branch branches => by
      simp [sites, references, Site.reference?, List.filterMap_cons,
        sitesBranches_references _ _ branches]
  | .loop condition body => by
      simp [sites, references, Site.reference?, List.filterMap_cons, condition.sites_references,
        sitesAll_references _ _ body]
  | .function _ _ body => by
      simp [sites, references, Site.reference?, List.filterMap_cons, sitesAll_references _ _ body]
  | .ret _ none => rfl
  | .ret _ (some value) => by
      simp [sites, references, Site.reference?, List.filterMap_cons, value.sites_references]
  | .breakLoop _ => rfl
  | .continueLoop _ => rfl

theorem Statement.sitesAll_references (context : Context) (frames : Frames) :
    ∀ statements : List Statement,
      (sitesAll context frames statements).filterMap Site.reference? = referencesAll statements
  | [] => rfl
  | statement :: rest => by
      simp [sitesAll, referencesAll, statement.sites_references,
        sitesAll_references context _ rest]

theorem Statement.sitesBranches_references (context : Context) (frames : Frames) :
    ∀ branches : List (Expression × List Statement),
      (sitesBranches context frames branches).filterMap Site.reference? =
        referencesBranches branches
  | [] => rfl
  | (condition, body) :: rest => by
      simp [sitesBranches, referencesBranches, condition.sites_references,
        sitesAll_references context _ body, sitesBranches_references context frames rest]

end

/-- The references of a program are those of its nodes. -/
theorem Program.sites_references (program : Program) :
    program.sites.filterMap Site.reference? = program.references :=
  Statement.sitesAll_references ⟨false, false⟩ [⟨[], []⟩] program

end OffsideScript
