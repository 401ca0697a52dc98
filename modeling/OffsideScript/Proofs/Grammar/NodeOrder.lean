import OffsideScript.Proofs.Grammar.Derivation
import OffsideScript.Proofs.Grammar.Progress
import OffsideScript.Tree.Reference
import Mathlib.Data.List.Perm.Basic
import Mathlib.Data.List.Nodup

namespace OffsideScript

mutual

/-- The numbers of the references in an expression, in the order of the source. -/
def Expression.nodes : Expression → List NodeId
  | .constant _ => []
  | .group inner => inner.nodes
  | .unary _ _ operand => operand.nodes
  | .binary _ _ left right => left.nodes ++ right.nodes
  | .logical _ _ left right => left.nodes ++ right.nodes
  | .conditional condition whenTrue whenFalse =>
      condition.nodes ++ whenTrue.nodes ++ whenFalse.nodes
  | .variable node _ => [node]
  | .assign node _ value => node :: value.nodes
  | .array elements => nodesAll elements
  | .map entries => nodesEntries entries
  | .call callee _ arguments => callee.nodes ++ nodesAll arguments
  | .index object _ position => object.nodes ++ position.nodes
  | .setIndex object _ position value => object.nodes ++ position.nodes ++ value.nodes

def Expression.nodesAll : List Expression → List NodeId
  | [] => []
  | expression :: rest => expression.nodes ++ nodesAll rest

def Expression.nodesEntries : List (Expression × Expression) → List NodeId
  | [] => []
  | (key, value) :: rest => key.nodes ++ value.nodes ++ nodesEntries rest

end

/-- A joined expression has the nodes of its left operand before those of its right one. -/
theorem Joiner.join_nodes (joiner : Joiner) (token : Token) (left right : Expression) :
    (joiner.join token left right).nodes = left.nodes ++ right.nodes := by
  cases joiner <;> rfl

mutual

/-- The numbers of the references in a statement, in the order of the source. -/
def Statement.nodes : Statement → List NodeId
  | .print _ value => value.nodes
  | .evaluate value => value.nodes
  | .declare _ none => []
  | .declare _ (some initial) => initial.nodes
  | .branch branches => nodesBranches branches
  | .loop condition body => condition.nodes ++ nodesAll body
  | .function _ _ body => nodesAll body
  | .ret _ none => []
  | .ret _ (some value) => value.nodes
  | .breakLoop _ => []
  | .continueLoop _ => []

def Statement.nodesAll : List Statement → List NodeId
  | [] => []
  | statement :: rest => statement.nodes ++ nodesAll rest

def Statement.nodesBranches : List (Expression × List Statement) → List NodeId
  | [] => []
  | (condition, body) :: rest => condition.nodes ++ nodesAll body ++ nodesBranches rest

end

/-- The number of a reference and the token of its name. -/
abbrev Occurrence := NodeId × Token

/-- The node and the name of a reference. -/
def Reference.occurrence (reference : Reference) : Occurrence :=
  (reference.node, reference.name)

mutual

/-- The references in an expression, in the order of the source. -/
def Expression.occurrences : Expression → List Occurrence
  | .constant _ => []
  | .group inner => inner.occurrences
  | .unary _ _ operand => operand.occurrences
  | .binary _ _ left right => left.occurrences ++ right.occurrences
  | .logical _ _ left right => left.occurrences ++ right.occurrences
  | .conditional condition whenTrue whenFalse =>
      condition.occurrences ++ whenTrue.occurrences ++ whenFalse.occurrences
  | .variable node name => [(node, name)]
  | .assign node name value => (node, name) :: value.occurrences
  | .array elements => occurrencesAll elements
  | .map entries => occurrencesEntries entries
  | .call callee _ arguments => callee.occurrences ++ occurrencesAll arguments
  | .index object _ position => object.occurrences ++ position.occurrences
  | .setIndex object _ position value =>
      object.occurrences ++ position.occurrences ++ value.occurrences

def Expression.occurrencesAll : List Expression → List Occurrence
  | [] => []
  | expression :: rest => expression.occurrences ++ occurrencesAll rest

def Expression.occurrencesEntries : List (Expression × Expression) → List Occurrence
  | [] => []
  | (key, value) :: rest => key.occurrences ++ value.occurrences ++ occurrencesEntries rest

end

/-- A joined expression has the names of its left operand before those of its right one. -/
theorem Joiner.join_occurrences (joiner : Joiner) (token : Token) (left right : Expression) :
    (joiner.join token left right).occurrences = left.occurrences ++ right.occurrences := by
  cases joiner <;> rfl

mutual

/-- The references in a statement, in the order of the source. -/
def Statement.occurrences : Statement → List Occurrence
  | .print _ value => value.occurrences
  | .evaluate value => value.occurrences
  | .declare _ none => []
  | .declare _ (some initial) => initial.occurrences
  | .branch branches => occurrencesBranches branches
  | .loop condition body => condition.occurrences ++ occurrencesAll body
  | .function _ _ body => occurrencesAll body
  | .ret _ none => []
  | .ret _ (some value) => value.occurrences
  | .breakLoop _ => []
  | .continueLoop _ => []

def Statement.occurrencesAll : List Statement → List Occurrence
  | [] => []
  | statement :: rest => statement.occurrences ++ occurrencesAll rest

def Statement.occurrencesBranches : List (Expression × List Statement) → List Occurrence
  | [] => []
  | (condition, body) :: rest =>
      condition.occurrences ++ occurrencesAll body ++ occurrencesBranches rest

end

mutual

/-- Each reference is listed once, though the target of an assignment comes late. -/
theorem Expression.occurrences_perm : ∀ expression : Expression,
    (expression.references.map Reference.occurrence).Perm expression.occurrences
  | .constant _ => .refl _
  | .group inner => inner.occurrences_perm
  | .unary _ _ operand => operand.occurrences_perm
  | .binary _ _ left right => by
      simp only [references, occurrences, List.map_append]
      exact left.occurrences_perm.append right.occurrences_perm
  | .logical _ _ left right => by
      simp only [references, occurrences, List.map_append]
      exact left.occurrences_perm.append right.occurrences_perm
  | .conditional condition whenTrue whenFalse => by
      simp only [references, occurrences, List.map_append]
      exact (condition.occurrences_perm.append whenTrue.occurrences_perm).append
        whenFalse.occurrences_perm
  | .variable _ _ => .refl _
  | .assign node name value => by
      simp only [references, occurrences, List.map_append]
      exact (value.occurrences_perm.append_right [(node, name)]).trans
        (List.perm_append_singleton _ _)
  | .array elements => occurrencesAll_perm elements
  | .map entries => occurrencesEntries_perm entries
  | .call callee _ arguments => by
      simp only [references, occurrences, List.map_append]
      exact callee.occurrences_perm.append (occurrencesAll_perm arguments)
  | .index object _ position => by
      simp only [references, occurrences, List.map_append]
      exact object.occurrences_perm.append position.occurrences_perm
  | .setIndex object _ position value => by
      simp only [references, occurrences, List.map_append]
      exact (object.occurrences_perm.append position.occurrences_perm).append
        value.occurrences_perm

/-- The references of a list are its occurrences in some order. -/
theorem Expression.occurrencesAll_perm : ∀ expressions : List Expression,
    ((referencesAll expressions).map Reference.occurrence).Perm (occurrencesAll expressions)
  | [] => .refl _
  | expression :: rest => by
      simp only [referencesAll, occurrencesAll, List.map_append]
      exact expression.occurrences_perm.append (occurrencesAll_perm rest)

theorem Expression.occurrencesEntries_perm : ∀ entries : List (Expression × Expression),
    ((referencesEntries entries).map Reference.occurrence).Perm (occurrencesEntries entries)
  | [] => .refl _
  | (key, value) :: rest => by
      simp only [referencesEntries, occurrencesEntries, List.map_append]
      exact (key.occurrences_perm.append value.occurrences_perm).append
        (occurrencesEntries_perm rest)

end

mutual

/-- The references of a statement are its occurrences in some order. -/
theorem Statement.occurrences_perm : ∀ statement : Statement,
    (statement.references.map Reference.occurrence).Perm statement.occurrences
  | .print _ value => value.occurrences_perm
  | .evaluate value => value.occurrences_perm
  | .declare _ none => .refl _
  | .declare _ (some initial) => initial.occurrences_perm
  | .branch branches => occurrencesBranches_perm branches
  | .loop condition body => by
      simp only [references, occurrences, List.map_append]
      exact condition.occurrences_perm.append (occurrencesAll_perm body)
  | .function _ _ body => occurrencesAll_perm body
  | .ret _ none => .refl _
  | .ret _ (some value) => value.occurrences_perm
  | .breakLoop _ => .refl _
  | .continueLoop _ => .refl _

theorem Statement.occurrencesAll_perm : ∀ statements : List Statement,
    ((referencesAll statements).map Reference.occurrence).Perm (occurrencesAll statements)
  | [] => .refl _
  | statement :: rest => by
      simp only [referencesAll, occurrencesAll, List.map_append]
      exact statement.occurrences_perm.append (occurrencesAll_perm rest)

theorem Statement.occurrencesBranches_perm :
    ∀ branches : List (Expression × List Statement),
      ((referencesBranches branches).map Reference.occurrence).Perm (occurrencesBranches branches)
  | [] => .refl _
  | (condition, body) :: rest => by
      simp only [referencesBranches, occurrencesBranches, List.map_append]
      exact (condition.occurrences_perm.append (occurrencesAll_perm body)).append
        (occurrencesBranches_perm rest)

end

mutual

/-- The occurrences of an expression have its nodes. -/
theorem Expression.occurrences_nodes : ∀ expression : Expression,
    expression.occurrences.map Prod.fst = expression.nodes
  | .constant _ => rfl
  | .group inner => inner.occurrences_nodes
  | .unary _ _ operand => operand.occurrences_nodes
  | .binary _ _ left right => by
      rw [occurrences, nodes, List.map_append, left.occurrences_nodes, right.occurrences_nodes]
  | .logical _ _ left right => by
      rw [occurrences, nodes, List.map_append, left.occurrences_nodes, right.occurrences_nodes]
  | .conditional condition whenTrue whenFalse => by
      rw [occurrences, nodes, List.map_append, List.map_append, condition.occurrences_nodes,
        whenTrue.occurrences_nodes, whenFalse.occurrences_nodes]
  | .variable _ _ => rfl
  | .assign _ _ value => by rw [occurrences, nodes, List.map_cons, value.occurrences_nodes]
  | .array elements => occurrencesAll_nodes elements
  | .map entries => occurrencesEntries_nodes entries
  | .call callee _ arguments => by
      rw [occurrences, nodes, List.map_append, callee.occurrences_nodes,
        occurrencesAll_nodes arguments]
  | .index object _ position => by
      rw [occurrences, nodes, List.map_append, object.occurrences_nodes,
        position.occurrences_nodes]
  | .setIndex object _ position value => by
      rw [occurrences, nodes, List.map_append, List.map_append, object.occurrences_nodes,
        position.occurrences_nodes, value.occurrences_nodes]

theorem Expression.occurrencesAll_nodes : ∀ expressions : List Expression,
    (occurrencesAll expressions).map Prod.fst = nodesAll expressions
  | [] => rfl
  | expression :: rest => by
      rw [occurrencesAll, nodesAll, List.map_append, expression.occurrences_nodes,
        occurrencesAll_nodes rest]

theorem Expression.occurrencesEntries_nodes : ∀ entries : List (Expression × Expression),
    (occurrencesEntries entries).map Prod.fst = nodesEntries entries
  | [] => rfl
  | (key, value) :: rest => by
      rw [occurrencesEntries, nodesEntries, List.map_append, List.map_append,
        key.occurrences_nodes, value.occurrences_nodes, occurrencesEntries_nodes rest]

end

mutual

/-- The occurrences of a statement have its nodes. -/
theorem Statement.occurrences_nodes : ∀ statement : Statement,
    statement.occurrences.map Prod.fst = statement.nodes
  | .print _ value => value.occurrences_nodes
  | .evaluate value => value.occurrences_nodes
  | .declare _ none => rfl
  | .declare _ (some initial) => initial.occurrences_nodes
  | .branch branches => occurrencesBranches_nodes branches
  | .loop condition body => by
      rw [occurrences, nodes, List.map_append, condition.occurrences_nodes,
        occurrencesAll_nodes body]
  | .function _ _ body => occurrencesAll_nodes body
  | .ret _ none => rfl
  | .ret _ (some value) => value.occurrences_nodes
  | .breakLoop _ => rfl
  | .continueLoop _ => rfl

theorem Statement.occurrencesAll_nodes : ∀ statements : List Statement,
    (occurrencesAll statements).map Prod.fst = nodesAll statements
  | [] => rfl
  | statement :: rest => by
      rw [occurrencesAll, nodesAll, List.map_append, statement.occurrences_nodes,
        occurrencesAll_nodes rest]

theorem Statement.occurrencesBranches_nodes : ∀ branches : List (Expression × List Statement),
    (occurrencesBranches branches).map Prod.fst = nodesBranches branches
  | [] => rfl
  | (condition, body) :: rest => by
      rw [occurrencesBranches, nodesBranches, List.map_append, List.map_append,
        condition.occurrences_nodes, occurrencesAll_nodes body, occurrencesBranches_nodes rest]

end

/-- Listing the references lists each number once. -/
theorem Statement.referencesAll_perm (statements : List Statement) :
    ((referencesAll statements).map Reference.node).Perm (nodesAll statements) := by
  have listed := (occurrencesAll_perm statements).map Prod.fst
  rwa [List.map_map, occurrencesAll_nodes] at listed

/-- Numbers grow along the list and lie between two bounds. -/
structure Ascending (low high : Nat) (nodes : List NodeId) : Prop where
  ascends : nodes.Pairwise (· < ·)
  above : ∀ node ∈ nodes, low ≤ node
  below : ∀ node ∈ nodes, node < high

namespace Ascending

theorem nil (low high : Nat) : Ascending low high [] :=
  ⟨.nil, by simp, by simp⟩

/-- One number ascends between itself and the next. -/
theorem singleton (node : Nat) : Ascending node (node + 1) [node] :=
  ⟨List.pairwise_singleton _ _, by simp, by simp⟩

/-- Ascending numbers are followed by ascending ones from where they end. -/
theorem append {low middle high : Nat} {first second : List NodeId}
    (before : Ascending low middle first) (after : Ascending middle high second)
    (lower : low ≤ middle) (upper : middle ≤ high) :
    Ascending low high (first ++ second) := by
  constructor
  · refine List.pairwise_append.mpr ⟨before.ascends, after.ascends, ?_⟩
    intro left leftMember right rightMember
    exact Nat.lt_of_lt_of_le (before.below left leftMember) (after.above right rightMember)
  · intro node member
    rcases List.mem_append.mp member with early | late
    · exact before.above node early
    · exact Nat.le_trans lower (after.above node late)
  · intro node member
    rcases List.mem_append.mp member with early | late
    · exact Nat.lt_of_lt_of_le (before.below node early) upper
    · exact after.below node late

/-- The upper bound can be raised. -/
theorem widen {low high higher : Nat} {nodes : List NodeId} (narrow : Ascending low high nodes)
    (upper : high ≤ higher) : Ascending low higher nodes :=
  ⟨narrow.ascends, narrow.above, fun node member =>
    Nat.lt_of_lt_of_le (narrow.below node member) upper⟩

/-- Leaving out numbers keeps the others ascending. -/
theorem sublist {low high : Nat} {nodes fewer : List NodeId}
    (all : Ascending low high nodes) (some : fewer.Sublist nodes) : Ascending low high fewer :=
  ⟨all.ascends.sublist some, fun node member => all.above node (some.subset member),
    fun node member => all.below node (some.subset member)⟩

end Ascending

namespace Cursor

/-- References have ascending numbers from a bound on, which the cursor has given, and in the same order
their names stand among the tokens that it has passed. -/
structure Numbered (tokens : List Token) (low : Nat) (cursor : Cursor) (found : List Occurrence) :
    Prop where
  ascending : Ascending low cursor.nextNode (found.map Prod.fst)
  written : ∃ passed, tokens = passed ++ cursor.rest ∧ (found.map Prod.snd).Sublist passed

namespace Numbered

variable {tokens : List Token} {low : Nat} {cursor next : Cursor} {found : List Occurrence}

theorem nil (low : Nat) (cursor : Cursor) : cursor.Numbered cursor.rest low [] :=
  ⟨.nil _ _, [], rfl, .refl _⟩

/-- References that are left out take none of the others away. -/
theorem sublist {fewer : List Occurrence} (all : cursor.Numbered tokens low found)
    (some : fewer.Sublist found) : cursor.Numbered tokens low fewer := by
  obtain ⟨passed, whole, written⟩ := all.written
  exact ⟨all.ascending.sublist (some.map _), passed, whole, (some.map _).trans written⟩

/-- What has been found stays found while the cursor goes on. -/
theorem advance (numbered : cursor.Numbered tokens low found) (follows : cursor.Follows next) :
    next.Numbered tokens low found := by
  obtain ⟨passed, rfl, written⟩ := numbered.written
  obtain ⟨more, rest⟩ := follows.rest
  refine ⟨numbered.ascending.widen follows.counts, passed ++ more, ?_,
    written.trans (List.sublist_append_left _ _)⟩
  rw [List.append_assoc, rest]

/-- A name before the end of the file is passed and gets the next number. -/
theorem name (numbered : cursor.Numbered tokens low found) (bound : low ≤ cursor.nextNode)
    (live : cursor.rest ≠ []) :
    Numbered tokens low { cursor.advance with nextNode := cursor.nextNode + 1 }
      (found ++ [(cursor.nextNode, cursor.current)]) := by
  obtain ⟨passed, rfl, written⟩ := numbered.written
  have whole : cursor.rest = cursor.current :: cursor.advance.rest := by
    cases shape : cursor.rest with
    | nil => exact absurd shape live
    | cons token rest => simp [Cursor.current, Cursor.advance, shape]
  refine ⟨?_, passed ++ [cursor.current], ?_, ?_⟩
  · rw [List.map_append]
    exact numbered.ascending.append (.singleton cursor.nextNode) bound (Nat.le_succ _)
  · rw [whole, List.append_assoc]
    rfl
  · rw [List.map_append]
    exact written.append (.refl _)

end Numbered

end Cursor

namespace Goal

variable {α : Type}

/-- The references in what was read before a goal was set. -/
def known : {α : Type} → Goal α → List Occurrence
  | _, .joined _ left => left.occurrences
  | _, .suffixes left => left.occurrences
  | _, _ => []

/-- The references in what is read for a goal. -/
def found : {α : Type} → Goal α → α → List Occurrence
  | _, .expression _ => Expression.occurrences
  | _, .joined _ _ => Expression.occurrences
  | _, .suffixes _ => Expression.occurrences
  | _, .atom => Expression.occurrences
  | _, .list _ => Expression.occurrencesAll
  | _, .items => Expression.occurrencesAll
  | _, .pairs => Expression.occurrencesEntries
  | _, .parameters => fun _ => []
  | _, .statement => Statement.occurrences
  | _, .branches => Statement.occurrencesBranches
  | _, .block _ => Statement.occurrencesAll
  | _, .statements _ => Statement.occurrencesAll
  | _, .attempt => fun read => read.elim [] Statement.occurrences

/-- The references in what is read for a goal come behind all that were found before. -/
def Continues (goal : Goal α) (reader : Reader α) : Prop :=
  ∀ (start : Cursor), start.finish.kind = .endOfFile → ∀ (tokens : List Token) (low : Nat),
    low ≤ start.nextNode → ∀ earlier, start.Numbered tokens low (earlier ++ goal.known) →
      ∀ value next, reader start = .ok value next →
        next.Numbered tokens low (earlier ++ goal.found value)

end Goal

namespace Plan

variable {α : Type}

/-- The references in the result of a plan are among those that were found before and on the way, in the
same order. -/
def Keeps (found : α → List Occurrence) : Plan α → List Occurrence → Prop
  | done value, before => (found value).Sublist before
  | fail _, _ => True
  | take _ _ taken other, before =>
      (∀ sorted token, (taken sorted token).Keeps found before) ∧ other.Keeps found before
  | look _ same other, before => same.Keeps found before ∧ other.Keeps found before
  | name taken other, before =>
      (∀ node token, (taken node token).Keeps found (before ++ [(node, token)])) ∧
        other.Keeps found before
  | literal taken other, before =>
      (∀ value, (taken value).Keeps found before) ∧ other.Keeps found before
  | report _ next, before => next.Keeps found before
  | ask goal next, before =>
      ∃ earlier, before = earlier ++ goal.known ∧
        ∀ value, (next value).Keeps found (earlier ++ goal.found value)
  | ending _ ended more, before => ended.Keeps found before ∧ more.Keeps found before
  | rescue next, before =>
      (∀ tree : Statement, (next (some tree)).Keeps found (before ++ tree.occurrences)) ∧
        (next none).Keeps found before

/-- A plan that keeps what was found before numbers all that it finds. -/
theorem continues {fuel : Nat} {found : α → List Occurrence}
    (goals : ∀ {β : Type} (goal : Goal β), goal.Continues (goal.read fuel)) {plan : Plan α}
    {before : List Occurrence} (keeps : plan.Keeps found before) {start next : Cursor}
    {tokens : List Token} {low : Nat} (numbered : start.Numbered tokens low before)
    (closed : start.finish.kind = .endOfFile) (bound : low ≤ start.nextNode) {value : α}
    (succeeds : plan.Succeeds fuel value next start) : next.Numbered tokens low (found value) := by
  induction succeeds generalizing before with
  | done => exact numbered.sublist keeps
  | untaken _ _ ih | missed _ _ ih | unnamed _ _ ih | uncarried _ _ ih | unended _ _ ih =>
      exact ih keeps.2 numbered closed bound
  | found _ _ ih | ended _ _ ih => exact ih keeps.1 numbered closed bound
  | @taken _ _ _ _ _ start _ _ _ ih =>
      exact ih (keeps.1 _ _) (numbered.advance start.follows_advance) closed bound
  | @carried _ _ start _ _ _ _ ih =>
      exact ih (keeps.1 _) (numbered.advance start.follows_advance) closed bound
  | named named _ ih =>
      have live := Cursor.rest_ne_nil closed (by rw [named]; decide)
      exact ih (keeps.1 _ _) (numbered.name bound live) closed (Nat.le_succ_of_le bound)
  | @reported error _ start _ ih =>
      exact ih keeps (numbered.advance (start.follows_report error)) closed bound
  | @asked _ goal _ start middle part read _ ih =>
      obtain ⟨earlier, rfl, keeps⟩ := keeps
      have follows := Goal.follows_of_ok read
      have continued := goals goal start closed tokens low bound earlier numbered part middle read
      exact ih (keeps part) continued (follows.closed closed) (Nat.le_trans bound follows.counts)
  | @read _ start middle tree read _ ih =>
      have follows := Goal.follows_of_ok read
      have known : start.Numbered tokens low (before ++ Goal.statement.known) := by
        simpa [Goal.known] using numbered
      have continued := goals .statement start closed tokens low bound before known tree middle read
      exact ih (keeps.1 tree) continued (follows.closed closed)
        (Nat.le_trans bound follows.counts)
  | recovered mistaken _ ih =>
      have recovers := Goal.follows_of_mistake mistaken
      exact ih keeps.2 (numbered.advance recovers) (recovers.closed closed)
        (Nat.le_trans bound recovers.counts)

/-- A wrong target is kept and its value is dropped, so numbers may be missing afterwards. -/
theorem keeps_assign (earlier : List Occurrence) (target : Expression) (equals : Token)
    (value : Expression) :
    (assign target equals value).Keeps (fun tree => earlier ++ tree.occurrences)
      (earlier ++ (target.occurrences ++ value.occurrences)) := by
  cases target <;> simp [assign, Keeps, Expression.occurrences]

/-- Further statements keep those that were read before them. -/
theorem keeps_further (earlier : List Occurrence) (nested : Bool) (read : Option Statement) :
    (further nested read).Keeps (fun trees => earlier ++ Statement.occurrencesAll trees)
      (earlier ++ read.elim [] Statement.occurrences) := by
  cases read <;> simp [further, Keeps, Goal.known, Goal.found, Statement.occurrencesAll]

end Plan

namespace Goal

variable {α : Type}

/-- The plan of every goal keeps what was found before. -/
theorem plan_keeps (goal : Goal α) (earlier : List Occurrence) :
    goal.plan.Keeps (fun value => earlier ++ goal.found value) (earlier ++ goal.known) := by
  cases goal with
  | expression level =>
      cases level <;>
        simp [plan, Plan.Keeps, Plan.keeps_assign, known, found, Expression.occurrences]
  | joined level left => simp [plan, Plan.Keeps, known, found, Joiner.join_occurrences]
  | statements nested =>
      simp [plan, Plan.Keeps, Plan.keeps_further, known, found, Statement.occurrencesAll]
  | _ =>
      simp [plan, Plan.Keeps, known, found, Expression.occurrences, Expression.occurrencesAll,
        Expression.occurrencesEntries, Statement.occurrences, Statement.occurrencesBranches]

/-- All readers go on from the numbers that were given before. -/
theorem continues (fuel : Nat) (goal : Goal α) : goal.Continues (goal.read fuel) := by
  refine read_induction (motive := fun _ _ goal reader => goal.Continues reader)
    (fun goal _ _ _ _ _ _ _ _ _ ran => ?_)
    (fun fuel goals _ goal _ closed _ _ bound earlier numbered _ _ ran => ?_) fuel goal
  · cases ran
  · exact Plan.continues goals (goal.plan_keeps earlier) numbered closed bound (Plan.succeeds ran)

end Goal

/-- The references of a program are numbered in ascending order, which is the order of their names before
the end of the file. -/
theorem Program.ofTokens_numbered (tokens : List Token) :
    ((Statement.occurrencesAll (Program.ofTokens tokens).1).map Prod.fst).Pairwise (· < ·) ∧
      ((Statement.occurrencesAll (Program.ofTokens tokens).1).map Prod.snd).Sublist
        (tokens.takeWhile (·.kind ≠ .endOfFile)) := by
  unfold Program.ofTokens
  cases ran : Reader.statements (Reader.enoughFuel tokens) false (.ofTokens tokens) with
  | ok program last =>
      have numbered := (Goal.statements false).continues (Reader.enoughFuel tokens) _
        (Cursor.ofTokens_closed tokens) _ 0 (Nat.zero_le _) [] (.nil _ _) program last ran
      obtain ⟨passed, whole, written⟩ := numbered.written
      refine ⟨numbered.ascending.ascends, ?_⟩
      change List.takeWhile _ tokens = _ at whole
      rw [whole]
      exact written.trans (List.sublist_append_left _ _)
  | error failure last => exact ⟨.nil, List.nil_sublist _⟩

/-- No two references of a program share a number. -/
theorem Program.ofTokens_nodup (tokens : List Token) :
    ((Program.ofTokens tokens).1.references.map Reference.node).Nodup := by
  have ascending := (Program.ofTokens_numbered tokens).1
  rw [Statement.occurrencesAll_nodes] at ascending
  exact (Statement.referencesAll_perm _).nodup_iff.mpr (ascending.imp fun less => Nat.ne_of_lt less)

/-- The numbers from the first up to the last. -/
def Consecutive (first last : Nat) (nodes : List NodeId) : Prop :=
  first ≤ last ∧ nodes = List.range' first (last - first)

namespace Consecutive

theorem nil (first : Nat) : Consecutive first first [] :=
  ⟨Nat.le_refl _, by simp⟩

/-- The number before consecutive ones joins them. -/
theorem cons {first last : Nat} {nodes : List NodeId}
    (rest : Consecutive (first + 1) last nodes) : Consecutive first last (first :: nodes) := by
  obtain ⟨more, rfl⟩ := rest
  have length : last - first = last - (first + 1) + 1 := by omega
  exact ⟨by omega, by rw [length, List.range'_succ]⟩

/-- Consecutive numbers are followed by consecutive ones from where they end. -/
theorem append {first middle last : Nat} {before after : List NodeId}
    (left : Consecutive first middle before) (right : Consecutive middle last after) :
    Consecutive first last (before ++ after) := by
  obtain ⟨lower, rfl⟩ := left
  obtain ⟨upper, rfl⟩ := right
  have start : middle = first + (middle - first) := by omega
  have length : last - first = (middle - first) + (last - middle) := by omega
  refine ⟨Nat.le_trans lower upper, ?_⟩
  rw [length, ← List.range'_append_1, ← start]

end Consecutive

/-- The nodes of a phrase in the order of the source. -/
def Phrase.nodes : Phrase → List NodeId
  | expression _ tree => tree.nodes
  | items trees | list trees => Expression.nodesAll trees
  | pairs trees | entries trees => Expression.nodesEntries trees
  | statement tree => tree.nodes
  | block trees | statements trees => Statement.nodesAll trees
  | branches trees => Statement.nodesBranches trees

/-- The references of a phrase are numbered in the order of the source without a gap. -/
theorem Derives.nodes_consecutive {first last : NodeId} {tokens : List Token} {phrase : Phrase}
    (derives : Derives first tokens phrase last) : Consecutive first last phrase.nodes := by
  induction derives with
  | tighter _ _ ih | group _ _ _ ih | array _ _ _ ih | map _ _ _ ih | someItems _ ih
    | somePairs _ ih | negate _ _ ih | not _ _ ih | print _ _ _ ih | declareValue _ _ _ _ _ ih
    | procedure _ _ _ _ _ ih | function _ _ _ _ _ _ ih | retValue _ _ _ ih | evaluate _ _ ih
    | block _ _ _ ih | colonBlock _ _ _ _ ih => exact ih
  | literal | trueWord | falseWord | nihlWord | noItems | noPairs | declare | ret | breakLoop
    | continueLoop | noBranch | noStatement => exact .nil _
  | join _ _ _ ihLeft ihRight =>
      change Consecutive _ _ (Joiner.join _ _ _ _).nodes
      rw [Joiner.join_nodes]
      exact ihLeft.append ihRight
  | assign _ _ _ ih => exact .cons ih
  | name => exact .cons (.nil _)
  | power _ _ _ ihLeft ihRight | call _ _ _ _ ihLeft ihRight | index _ _ _ _ ihLeft ihRight
    | nextItem _ _ _ ihLeft ihRight | loop _ _ _ ihLeft ihRight
    | nextStatement _ _ ihLeft ihRight => exact ihLeft.append ihRight
  | setIndex _ _ _ _ _ _ ihFirst ihSecond ihThird
    | conditional _ _ _ _ _ ihFirst ihSecond ihThird
    | nextPair _ _ _ _ _ ihFirst ihSecond ihThird | branch _ _ _ _ ihFirst ihSecond ihThird
    | elif _ _ _ _ ihFirst ihSecond ihThird => exact (ihFirst.append ihSecond).append ihThird
  | lastItem _ ih => exact ih.append (.nil _)
  | lastPair _ _ _ ihKey ihValue => exact (ihKey.append ihValue).append (.nil _)
  | otherwise _ _ ih => exact ((Consecutive.nil _).append ih).append (.nil _)

end OffsideScript
