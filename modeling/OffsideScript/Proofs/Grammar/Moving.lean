/-
This file shows that reading does not depend on where tokens stand and on what was read before. If tokens
are on other lines, the trees and the errors are those with the other lines. If more numbers were given and
errors reported, the references get higher numbers and the errors follow those before.
-/

import OffsideScript.Proofs.Grammar.Completeness.Statement
import OffsideScript.Proofs.Grammar.Harvest
import OffsideScript.Proofs.Grammar.Relabel
import OffsideScript.Proofs.Token.Seam

namespace OffsideScript

/-- References that are next to each other stay so. -/
def Relabeling.Steps (labels : Relabeling) : Prop :=
  ∀ node : Nat, labels.node (node + 1) = labels.node node + 1

/-- Numbers that are moved by a constant are still given one after another. -/
theorem Relabeling.shift_steps (lines nodes : Nat) : (Relabeling.shift lines nodes).Steps :=
  fun node => Nat.add_right_comm node 1 nodes

/-- A token keeps its kind on another line. -/
theorem Token.relabel_kind (labels : Relabeling) (token : Token) :
    (token.relabel labels).kind = token.kind := rfl

/-- The error on its new line. -/
def GrammarError.relabel (labels : Relabeling) (error : GrammarError) : GrammarError :=
  { error with line := labels.line error.line }

namespace Token

/-- A block is skipped alike on other lines. -/
theorem skipBlock_relabel (labels : Relabeling) (depth : Nat) (tokens : List Token) :
    skipBlock depth (tokens.map (relabel labels)) = (skipBlock depth tokens).map (relabel labels) := by
  induction tokens generalizing depth with
  | nil => rfl
  | cons token rest ih =>
      rw [List.map_cons, skipBlock, skipBlock, relabel_kind]
      split
      · exact ih (depth + 1)
      · split
        · rfl
        · exact ih (depth - 1)
      · exact ih depth

/-- The rest of a broken statement is skipped alike on other lines. -/
theorem synchronize_relabel (labels : Relabeling) (tokens : List Token) :
    synchronize (tokens.map (relabel labels)) = (synchronize tokens).map (relabel labels) := by
  induction tokens with
  | nil => rfl
  | cons token rest ih =>
      rw [List.map_cons, synchronize, synchronize, relabel_kind]
      split
      case h_2 =>
        rw [← List.map_cons]
        exact skipBlock_relabel labels 0 (token :: rest)
      case h_10 => exact ih
      all_goals rfl

end Token

namespace Cursor

/-- The cursor if its tokens were relabeled, and errors reported before. -/
def moved (labels : Relabeling) (reports : List GrammarError) (cursor : Cursor) : Cursor where
  rest := cursor.rest.map (Token.relabel labels)
  finish := cursor.finish.relabel labels
  nextNode := labels.node cursor.nextNode
  errors := cursor.errors.map (GrammarError.relabel labels) ++ reports

variable (labels : Relabeling) (reports : List GrammarError)

/-- The moved cursor sees the moved token. -/
theorem moved_current (cursor : Cursor) :
    (cursor.moved labels reports).current = cursor.current.relabel labels := by
  unfold current moved
  cases cursor.rest <;> rfl

/-- The moved cursor steps as the cursor does. -/
theorem moved_advance (cursor : Cursor) :
    (cursor.moved labels reports).advance = cursor.advance.moved labels reports := by
  unfold advance moved
  cases cursor.rest <;> rfl

/-- The moved cursor recovers as the cursor does. -/
theorem moved_recover (start failed : Cursor) (error : GrammarError) :
    (start.moved labels reports).recover (failed.moved labels reports) (error.relabel labels) =
      (start.recover failed error).moved labels reports := by
  have reported : (failed.moved labels reports).report (error.relabel labels) =
      (failed.report error).moved labels reports := rfl
  have places (cursor : Cursor) :
      (cursor.moved labels reports).rest.length = cursor.rest.length := List.length_map _
  have skipped (cursor : Cursor) :
      { cursor.moved labels reports with
        rest := Token.synchronize (cursor.moved labels reports).rest } =
          Cursor.moved labels reports { cursor with rest := Token.synchronize cursor.rest } := by
    unfold moved
    rw [Token.synchronize_relabel]
  unfold recover
  dsimp only
  rw [places, places, reported]
  split
  · rw [moved_advance]
    exact skipped _
  · exact skipped _

/-- The cursor if further numbers were given and errors reported before. -/
def behind (nodes : Nat) (reports : List GrammarError) (cursor : Cursor) : Cursor :=
  { cursor with nextNode := cursor.nextNode + nodes, errors := cursor.errors ++ reports }

/-- Moving the numbers alone is standing behind other tokens. -/
theorem moved_shift (nodes : Nat) (reports : List GrammarError) (cursor : Cursor) :
    cursor.moved (.shift 0 nodes) reports = cursor.behind nodes reports := by
  have tokens : cursor.rest.map (Token.relabel (.shift 0 nodes)) = cursor.rest :=
    List.map_id _
  have errors : cursor.errors.map (GrammarError.relabel (.shift 0 nodes)) = cursor.errors :=
    List.map_id _
  unfold moved
  rw [tokens, errors]
  rfl

/-- Behind other tokens a cursor recovers as it does alone. -/
theorem behind_recover (nodes : Nat) (reports : List GrammarError) (start failed : Cursor)
    (error : GrammarError) :
    (start.behind nodes reports).recover (failed.behind nodes reports) error =
      (start.recover failed error).behind nodes reports := by
  rw [← moved_shift, ← moved_shift, ← moved_shift]
  exact moved_recover (.shift 0 nodes) reports start failed error

end Cursor

namespace Reader

variable {α : Type} (labels : Relabeling) (reports : List GrammarError)

/-- An outcome on moved tokens is that on those in place, if that is not for lack of fuel. -/
def Moved (relabeled : α → α) (placed elsewhere : EStateM.Result Failure Cursor α) : Prop :=
  match placed with
  | .ok value next => elsewhere = .ok (relabeled value) (next.moved labels reports)
  | .error (.mistake error) next =>
      elsewhere = .error (.mistake (error.relabel labels)) (next.moved labels reports)
  | .error .outOfFuel _ => True

/-- A reader does on moved tokens what another one does on those in place. -/
def Moves (relabeled : α → α) (placed elsewhere : Reader α) : Prop :=
  ∀ cursor : Cursor,
    Moved labels reports relabeled (placed cursor) (elsewhere (cursor.moved labels reports))

end Reader

namespace Goal

variable {α : Type} (labels : Relabeling)

/-- The goal if what was read before it were relabeled. -/
def relabel : {α : Type} → Goal α → Goal α
  | _, .joined level left => .joined level (left.relabel labels)
  | _, .suffixes left => .suffixes (left.relabel labels)
  | _, goal => goal

/-- The result of a goal if its tokens were relabeled. -/
def relabeled : {α : Type} → Goal α → α → α
  | _, .expression _ => Expression.relabel labels
  | _, .joined _ _ => Expression.relabel labels
  | _, .suffixes _ => Expression.relabel labels
  | _, .atom => Expression.relabel labels
  | _, .list _ => Expression.relabelAll labels
  | _, .items => Expression.relabelAll labels
  | _, .pairs => Expression.relabelEntries labels
  | _, .parameters => List.map (Token.relabel labels)
  | _, .statement => Statement.relabel labels
  | _, .branches => Statement.relabelBranches labels
  | _, .block _ => Statement.relabelAll labels
  | _, .statements _ => Statement.relabelAll labels
  | _, .attempt => Option.map (Statement.relabel labels)

end Goal

namespace Plan

variable {α : Type}

/-- Two plans take the same steps, the second on relabeled tokens. -/
inductive Alike (labels : Relabeling) (relabeled : α → α) : Plan α → Plan α → Prop where
  | done (value : α) : Alike labels relabeled (.done value) (.done (relabeled value))
  | fail (reason : GrammarError.Reason) : Alike labels relabeled (.fail reason) (.fail reason)
  | take {β : Type} {sort : Token.Kind → Option β} {live : sort .endOfFile = none}
      {taken moved : β → Token → Plan α} {other further : Plan α}
      (each : ∀ found token,
        Alike labels relabeled (taken found token) (moved found (token.relabel labels)))
      (rest : Alike labels relabeled other further) :
      Alike labels relabeled (.take sort live taken other) (.take sort live moved further)
  | look {kind : Token.Kind} {same moved other further : Plan α}
      (each : Alike labels relabeled same moved) (rest : Alike labels relabeled other further) :
      Alike labels relabeled (.look kind same other) (.look kind moved further)
  | name {taken moved : NodeId → Token → Plan α} {other further : Plan α}
      (each : ∀ node token,
        Alike labels relabeled (taken node token) (moved (labels.node node) (token.relabel labels)))
      (rest : Alike labels relabeled other further) :
      Alike labels relabeled (.name taken other) (.name moved further)
  | literal {taken moved : Literal → Plan α} {other further : Plan α}
      (each : ∀ value, Alike labels relabeled (taken value) (moved value))
      (rest : Alike labels relabeled other further) :
      Alike labels relabeled (.literal taken other) (.literal moved further)
  | report {error : GrammarError} {next moved : Plan α} (rest : Alike labels relabeled next moved) :
      Alike labels relabeled (.report error next) (.report (error.relabel labels) moved)
  | ask {β : Type} {goal : Goal β} {next moved : β → Plan α}
      (each : ∀ value, Alike labels relabeled (next value) (moved (goal.relabeled labels value))) :
      Alike labels relabeled (.ask goal next) (.ask (goal.relabel labels) moved)
  | ending {nested : Bool} {ended moved more further : Plan α}
      (each : Alike labels relabeled ended moved) (rest : Alike labels relabeled more further) :
      Alike labels relabeled (.ending nested ended more) (.ending nested moved further)
  | rescue {next moved : Option Statement → Plan α}
      (each : ∀ read,
        Alike labels relabeled (next read) (moved (read.map (Statement.relabel labels)))) :
      Alike labels relabeled (.rescue next) (.rescue moved)

/-- Plans that take the same steps come to the same end. -/
theorem Alike.moves {labels : Relabeling} {reports : List GrammarError} {fuel : Nat}
    (steps : labels.Steps)
    (goals : ∀ {β : Type} (goal : Goal β), Reader.Moves labels reports (goal.relabeled labels)
      (goal.read fuel) ((goal.relabel labels).read fuel))
    {relabeled : α → α} {plan moved : Plan α} (alike : Alike labels relabeled plan moved) :
    Reader.Moves labels reports relabeled (plan.run fuel) (moved.run fuel) := by
  induction alike with
  | done value => exact fun _ => rfl
  | fail reason =>
      intro cursor
      rw [run, run, Cursor.moved_current]
      rfl
  | @take _ sort _ taken moved other further _ _ ihEach ihRest =>
      intro cursor
      rw [run, run, Cursor.moved_current, Cursor.moved_advance, Token.relabel_kind]
      cases sort cursor.current.kind with
      | some found => exact ihEach found _ cursor.advance
      | none => exact ihRest cursor
  | @look kind _ _ _ _ _ _ ihEach ihRest =>
      intro cursor
      rw [run, run, Cursor.moved_current, Token.relabel_kind]
      by_cases same : cursor.current.kind = kind
      · rw [if_pos same, if_pos same]
        exact ihEach cursor
      · rw [if_neg same, if_neg same]
        exact ihRest cursor
  | name _ _ ihEach ihRest =>
      intro cursor
      have counted : (cursor.moved labels reports).nextNode + 1 = labels.node (cursor.nextNode + 1) :=
        (steps cursor.nextNode).symm
      rw [run, run, Cursor.moved_current, Cursor.moved_advance, Token.relabel_kind, counted]
      by_cases named : cursor.current.kind = .identifier
      · rw [if_pos named, if_pos named]
        exact ihEach _ _ { cursor.advance with nextNode := cursor.nextNode + 1 }
      · rw [if_neg named, if_neg named]
        exact ihRest cursor
  | literal _ _ ihEach ihRest =>
      intro cursor
      have same : (cursor.current.relabel labels).literal = cursor.current.literal := rfl
      rw [run, run, Cursor.moved_current, Cursor.moved_advance, Token.relabel_kind, same]
      by_cases kind : cursor.current.kind = .number ∨ cursor.current.kind = .text
      · rw [if_pos kind, if_pos kind]
        cases cursor.current.literal with
        | some value => exact ihEach value cursor.advance
        | none => rfl
      · rw [if_neg kind, if_neg kind]
        exact ihRest cursor
  | @report error _ _ _ ih =>
      intro cursor
      rw [run, run]
      exact ih (cursor.report error)
  | @ask _ goal _ _ _ ih =>
      intro cursor
      have step := goals goal cursor
      rw [run, run]
      cases ran : goal.read fuel cursor with
      | ok value middle =>
          rw [ran] at step
          rw [show _ = _ from step]
          exact ih value middle
      | error failure middle =>
          rw [ran] at step
          cases failure with
          | mistake error =>
              rw [show _ = _ from step]
              rfl
          | outOfFuel => trivial
  | @ending nested _ _ _ _ _ _ ihEach ihRest =>
      intro cursor
      have same : (cursor.moved labels reports).rest = [] ↔ cursor.rest = [] := List.map_eq_nil_iff
      rw [run, run, Cursor.moved_current, Token.relabel_kind]
      by_cases ends : cursor.rest = [] ∨ nested = true ∧ cursor.current.kind = .dedent
      · rw [if_pos ends, if_pos (by rwa [same])]
        exact ihEach cursor
      · rw [if_neg ends, if_neg (by rwa [same])]
        exact ihRest cursor
  | rescue _ ih =>
      intro cursor
      have step : Reader.Moved labels reports (Statement.relabel labels)
          (Reader.statement fuel cursor) (Reader.statement fuel (cursor.moved labels reports)) :=
        goals .statement cursor
      rw [run, run]
      cases ran : Reader.statement fuel cursor with
      | ok read middle =>
          rw [ran] at step
          rw [show _ = _ from step]
          exact ih (some read) middle
      | error failure middle =>
          rw [ran] at step
          cases failure with
          | mistake error =>
              rw [show _ = _ from step]
              dsimp only
              rw [Cursor.moved_recover]
              exact ih none _
          | outOfFuel => trivial

end Plan

namespace Goal

variable {α : Type}

/-- Labels have no part in what a reader does. -/
theorem plan_alike (labels : Relabeling) (goal : Goal α) :
    goal.plan.Alike labels (goal.relabeled labels) (goal.relabel labels).plan := by
  cases goal with
  | expression level =>
      cases level with
      | assignment =>
          refine .ask fun target => .take (fun _ equals => .ask fun value => ?_) (.done target)
          cases target with
          | «variable» | index => exact .done _
          | _ => exact .report (.done _)
      | _ => repeat' first | intro _ | constructor
  | joined level left =>
      refine .take (fun joiner token => .ask fun right => ?_) (.done left)
      cases joiner <;> exact .ask fun tree => .done tree
  | statements nested =>
      refine .ending (.done []) (.ask fun read => ?_)
      cases read with
      | some first => exact .ask fun rest => .done (first :: rest)
      | none => exact .ask fun rest => .done rest
  | _ => repeat' first | intro _ | constructor

/-- All readers do on moved tokens what they do on those in place. -/
theorem moves {labels : Relabeling} (steps : labels.Steps) (reports : List GrammarError) (fuel : Nat)
    (goal : Goal α) :
    Reader.Moves labels reports (goal.relabeled labels) (goal.read fuel)
      ((goal.relabel labels).read fuel) := by
  refine read_induction
    (motive := fun fuel _ goal reader => Reader.Moves labels reports (goal.relabeled labels) reader
      ((goal.relabel labels).read fuel))
    (fun _ _ => trivial) (fun fuel goals _ goal => ?_) fuel goal
  rw [read_succ]
  exact (goal.plan_alike labels).moves steps goals

end Goal

namespace Program

variable {tokens : List Token} {program : Program}

/-- Reading moved tokens leads to the moved program and to the moved cursor. -/
theorem read_moved {labels : Relabeling} (steps : labels.Steps) (fuel : Nat) {start next : Cursor}
    (ran : Reader.statements fuel false start = .ok program next) :
    Reader.statements fuel false (start.moved labels []) =
      .ok (program.relabel labels) (next.moved labels []) := by
  have moved : Reader.Moved labels [] (Statement.relabelAll labels)
      (Reader.statements fuel false start) (Reader.statements fuel false (start.moved labels [])) :=
    (Goal.statements false).moves steps [] fuel start
  rw [ran] at moved
  exact moved

/-- What is read without an error is derived from the tokens before the end of file. -/
theorem derives_of_read (read : Program.ofTokens tokens = (program, [])) :
    Derives 0 (tokens.takeWhile (·.kind ≠ .endOfFile)) (.statements program)
      (allocated tokens) := by
  have derives := @derives_allocated tokens (by rw [read])
  rwa [read] at derives

/-- The references of a program have numbers that were given. -/
theorem nodes_below (read : Program.ofTokens tokens = (program, [])) {node : NodeId}
    (member : node ∈ Statement.nodesAll program) : (node : Nat) < allocated tokens := by
  obtain ⟨_, numbers⟩ := (derives_of_read read).nodes_consecutive
  change Statement.nodesAll program = _ at numbers
  rw [numbers, List.mem_range'_1] at member
  have below : (node : Nat) < 0 + (allocated tokens - 0) := member.2
  rwa [Nat.sub_zero, Nat.zero_add] at below

/-- Moved tokens derive the moved program with the moved numbers. -/
theorem derives_relabel {labels : Relabeling} (steps : labels.Steps)
    (read : Program.ofTokens tokens = (program, [])) :
    Derives (labels.node 0) ((tokens.takeWhile (·.kind ≠ .endOfFile)).map (Token.relabel labels))
      (.statements (program.relabel labels)) (labels.node (allocated tokens)) := by
  obtain ⟨found, next, ran, same⟩ := ofTokens_eq tokens
  obtain ⟨rfl, clean⟩ := Prod.mk.inj (same.symm.trans read)
  have moved := read_moved steps _ ran
  have errorless : (next.moved labels []).errors = [] := by
    simp [Cursor.moved, List.reverse_eq_nil_iff.mp clean]
  obtain ⟨passed, reads, derives⟩ := (Goal.statements false).sound (Reader.enoughFuel tokens)
    ((Cursor.ofTokens tokens).moved labels []) _ _ (Cursor.ofTokens_closed tokens) moved errorless
  have whole := reads.rest
  rw [Reader.statements_rest _ _ _ _ moved, List.append_nil] at whole
  have last : next.nextNode = allocated tokens := by
    unfold allocated
    rw [ran]
    rfl
  rw [← whole] at derives
  rw [← last]
  exact derives

end Program

/-- Other lines for tokens whose references keep their numbers. -/
def Relabeling.lines (line : Nat → Nat) : Relabeling :=
  ⟨line, id⟩

/-- New lines leave the numbering alone. -/
theorem Relabeling.lines_steps (line : Nat → Nat) : (Relabeling.lines line).Steps :=
  fun _ => rfl

/-- A cursor over tokens on new lines is the moved cursor. -/
theorem Cursor.ofTokens_relabel (line : Nat → Nat) {tokens : List Token} (nonempty : tokens ≠ []) :
    Cursor.ofTokens (tokens.map (Token.relabel (.lines line))) =
      (Cursor.ofTokens tokens).moved (.lines line) [] := by
  obtain ⟨last, found⟩ := Option.isSome_iff_exists.mp (List.getLast?_isSome.mpr nonempty)
  have kinds : (fun token : Token => decide (token.kind = .endOfFile)) ∘ Token.relabel (.lines line) =
      fun token => decide (token.kind = .endOfFile) := rfl
  have others : (fun token : Token => decide (token.kind ≠ .endOfFile)) ∘ Token.relabel (.lines line) =
      fun token => decide (token.kind ≠ .endOfFile) := rfl
  unfold ofTokens moved
  rw [List.takeWhile_map, List.find?_map, kinds, others, List.getLast?_map, found]
  cases tokens.find? (·.kind = .endOfFile) <;> rfl

namespace Program

variable {tokens : List Token} {program : Program}

/-- Tokens on other lines are read to the program on these lines. -/
theorem read_relabel (line : Nat → Nat) (nonempty : tokens ≠ []) {next : Cursor}
    (ran : Reader.statements (Reader.enoughFuel tokens) false (.ofTokens tokens) = .ok program next) :
    Reader.statements (Reader.enoughFuel (tokens.map (Token.relabel (.lines line)))) false
        (.ofTokens (tokens.map (Token.relabel (.lines line)))) =
      .ok (program.relabel (.lines line)) (next.moved (.lines line) []) := by
  have fuel : Reader.enoughFuel (tokens.map (Token.relabel (.lines line))) =
      Reader.enoughFuel tokens := by
    unfold Reader.enoughFuel
    rw [List.length_map]
  rw [fuel, Cursor.ofTokens_relabel line nonempty]
  exact read_moved (Relabeling.lines_steps line) _ ran

/-- Tokens on other lines form the program on these lines, with the errors there. -/
theorem ofTokens_relabel (line : Nat → Nat) (nonempty : tokens ≠ []) :
    ofTokens (tokens.map (Token.relabel (.lines line))) =
      ((ofTokens tokens).1.relabel (.lines line),
        (ofTokens tokens).2.map (GrammarError.relabel (.lines line))) := by
  obtain ⟨program, next, ran, read⟩ := ofTokens_eq tokens
  rw [read]
  unfold ofTokens
  rw [read_relabel line nonempty ran]
  simp [Cursor.moved]

/-- The lines have no part in the numbers that are given. -/
theorem allocated_relabel (line : Nat → Nat) (nonempty : tokens ≠ []) :
    allocated (tokens.map (Token.relabel (.lines line))) = allocated tokens := by
  obtain ⟨program, next, ran, _⟩ := ofTokens_eq tokens
  unfold allocated
  rw [ran, read_relabel line nonempty ran]
  rfl

end Program

namespace Token

/-- The tokens with their places in the list for their lines. -/
def placed (tokens : List Token) : List Token :=
  tokens.mapIdx fun place token => token.onLine place

/-- The line of the token at a place. -/
def lineAt (tokens : List Token) (place : Nat) : Nat :=
  (tokens[place]?.map line).getD 0

/-- Tokens get their lines back from their places. -/
theorem placed_relabel (tokens : List Token) :
    (placed tokens).map (relabel (.lines (lineAt tokens))) = tokens := by
  apply List.ext_getElem?
  intro place
  unfold placed
  rw [List.getElem?_map, List.getElem?_mapIdx]
  cases found : tokens[place]? with
  | none => rfl
  | some token =>
      have there : lineAt tokens place = token.line := by rw [lineAt, found]; rfl
      show some (token.onLine (lineAt tokens place)) = some token
      rw [there]
      rfl

/-- The places do not depend on the lines. -/
theorem placed_unlined (tokens : List Token) : placed (tokens.map unlined) = placed tokens := by
  apply List.ext_getElem?
  intro place
  unfold placed
  rw [List.getElem?_mapIdx, List.getElem?_mapIdx, List.getElem?_map]
  cases tokens[place]? <;> rfl

/-- The token at a place has that place for its line. -/
theorem placed_getElem? {tokens : List Token} {place : Nat} (inside : place < tokens.length) :
    (placed tokens)[place]? = some (tokens[place].onLine place) := by
  unfold placed
  rw [List.getElem?_mapIdx, List.getElem?_eq_getElem inside]
  rfl

/-- There are as many placed tokens as tokens, so there are some. -/
theorem placed_ne_nil {tokens : List Token} (nonempty : tokens ≠ []) : placed tokens ≠ [] := by
  intro empty
  have length := congrArg List.length empty
  rw [placed, List.length_mapIdx] at length
  exact nonempty (List.length_eq_zero_iff.mp length)

/-- Tokens that differ in their lines only have the same places. -/
theorem placed_congr {tokens others : List Token} (same : tokens.map unlined = others.map unlined) :
    placed tokens = placed others := by
  rw [← placed_unlined, same, placed_unlined]

end Token

/-- Labels that agree about the words and the numbers that were read. -/
def Harvest.agreeing (labels other : Relabeling) : Harvest where
  word token := token.kind.IsWritten → labels.line token.line = other.line token.line
  number node := labels.node node = other.node node
  result goal value := goal.relabeled labels value = goal.relabeled other value

/-- Operators between operands are written. -/
theorem Level.Joins.isWritten {level : Level} {kind : Token.Kind} {joiner : Joiner}
    (joins : level.Joins kind joiner) : kind.IsWritten := by
  cases joins <;> decide

/-- Operators in front of an operand are written. -/
theorem UnaryOperator.isWritten_of_ofKind? {kind : Token.Kind} {operator : UnaryOperator}
    (found : ofKind? kind = some operator) : kind.IsWritten := by
  unfold ofKind? at found
  split at found <;> cases found <;> decide

namespace Goal

variable {α : Type} {labels other : Relabeling}

/-- The target of an assignment has its labels already. -/
theorem assign_agreeing {target value : Expression} (equals : Token)
    (before : target.relabel labels = target.relabel other)
    (after : value.relabel labels = value.relabel other) :
    (Plan.assign target equals value).Bears (.agreeing labels other)
      fun tree => tree.relabel labels = tree.relabel other := by
  cases target with
  | «variable» | index =>
      simp only [Plan.assign, Plan.Bears, Expression.relabel] at before ⊢
      grind
  | _ => exact before

/-- What agrees about the parts of a tree agrees about the tree. -/
theorem plan_agreeing (goal : Goal α) (given : (Harvest.agreeing labels other).Given goal) :
    goal.plan.Bears (.agreeing labels other)
      fun value => goal.relabeled labels value = goal.relabeled other value := by
  cases goal with
  | expression level =>
      cases level with
      | assignment =>
          simp only [plan, Plan.Bears, Harvest.Given, true_and]
          exact fun target before =>
            ⟨fun _ equals _ _ value after => assign_agreeing equals before after, before⟩
      | sign =>
          refine ⟨fun operator token found word => ⟨trivial, fun operand inner => ?_⟩, trivial, fun _ => id⟩
          have line := word (UnaryOperator.isWritten_of_ofKind? found)
          have operand : operand.relabel labels = operand.relabel other := inner
          simp only [Plan.Bears, relabeled, Expression.relabel, Token.relabel, line, operand]
      | _ =>
          simp +contextual [plan, Plan.Bears, Harvest.agreeing, Harvest.Given, relabeled,
            Expression.relabel, Token.relabel, Token.Kind.IsWritten]
  | joined level left =>
      refine ⟨fun joiner token found word => ⟨trivial, fun right after => ⟨?_, fun _ => id⟩⟩, given⟩
      have line := word (Level.joins_of_joiner? found).isWritten
      have before : left.relabel labels = left.relabel other := given
      have after : right.relabel labels = right.relabel other := after
      change (joiner.join token left right).relabel labels = (joiner.join token left right).relabel other
      cases joiner <;>
        simp only [Joiner.join, Expression.relabel, Token.relabel, line, before, after]
  | suffixes left =>
      have before : left.relabel labels = left.relabel other := given
      simp +contextual [plan, Plan.Bears, Harvest.agreeing, Harvest.Given, relabeled,
        Expression.relabel, Token.relabel, Token.Kind.IsWritten, before]
  | statements nested =>
      refine ⟨rfl, trivial, fun read first => ?_⟩
      cases read with
      | some tree =>
          have here : tree.relabel labels = tree.relabel other := Option.some.inj first
          refine ⟨trivial, fun rest others => ?_⟩
          have others : Statement.relabelAll labels rest = Statement.relabelAll other rest := others
          simp only [Plan.Bears, relabeled, Statement.relabelAll, here, others]
      | none => exact ⟨trivial, fun rest others => others⟩
  | _ =>
      simp +contextual [plan, Plan.Bears, Harvest.agreeing, Harvest.Given, relabeled,
        Expression.relabel, Token.relabel, Token.Kind.IsWritten, Statement.relabel,
        Expression.relabelAll, Expression.relabelEntries, Statement.relabelBranches]

end Goal

namespace Program

variable {tokens : List Token} {program : Program}

/-- Labels that agree about the lines of all words and the numbers that were given relabel a program alike. -/
theorem relabel_congr (read : Program.ofTokens tokens = (program, [])) {labels other : Relabeling}
    (lines : ∀ token ∈ tokens, token.kind.IsWritten →
      labels.line token.line = other.line token.line)
    (nodes : ∀ node < allocated tokens, labels.node node = other.node node) :
    program.relabel labels = program.relabel other := by
  have same := (Harvest.agreeing labels other).ofTokens Goal.plan_agreeing lines nodes
  rw [read] at same
  exact same

/-- Labels that keep the lines of all words and the numbers that were given keep the program. -/
theorem relabel_eq (read : Program.ofTokens tokens = (program, [])) {labels : Relabeling}
    (lines : ∀ token ∈ tokens, token.kind.IsWritten → labels.line token.line = token.line)
    (nodes : ∀ node < allocated tokens, labels.node node = node) :
    program.relabel labels = program := by
  have same : program.relabel labels = program.relabel ⟨id, id⟩ := relabel_congr read lines nodes
  have steps : Relabeling.Steps ⟨id, id⟩ := fun _ => rfl
  have derives := derives_relabel steps read
  have kept : (tokens.takeWhile (·.kind ≠ .endOfFile)).map (Token.relabel ⟨id, id⟩) =
      tokens.takeWhile (·.kind ≠ .endOfFile) := List.map_id _
  rw [kept] at derives
  have again := ofTokens_of_derives derives
  rw [read] at again
  exact same.trans (congrArg Prod.fst again).symm

/-- A program is read by its places first, which then get their lines. -/
theorem ofTokens_placed (nonempty : tokens ≠ []) :
    ofTokens tokens =
      ((ofTokens (Token.placed tokens)).1.relabel (.lines (Token.lineAt tokens)),
        (ofTokens (Token.placed tokens)).2.map
          (GrammarError.relabel (.lines (Token.lineAt tokens)))) := by
  have whole := ofTokens_relabel (Token.lineAt tokens) (Token.placed_ne_nil nonempty)
  rwa [Token.placed_relabel] at whole

/-- Tokens that differ in their lines only are read to programs that differ in their lines only. -/
theorem ofTokens_of_unlined {others : List Token} (nonempty : tokens ≠ [])
    (read : ofTokens tokens = (program, []))
    (same : others.map Token.unlined = tokens.map Token.unlined) :
    ∃ other, ofTokens others = (other, []) ∧
      Statement.unlinedAll other = Statement.unlinedAll program ∧
      Statement.nodesAll other = Statement.nodesAll program := by
  have still : others ≠ [] := by
    rintro rfl
    exact nonempty (List.map_eq_nil_iff.mp same.symm)
  obtain ⟨first, clean⟩ := Prod.mk.inj ((ofTokens_placed nonempty).symm.trans read)
  refine ⟨_, Prod.ext rfl ?_, ?_, ?_⟩
  · rw [ofTokens_placed still, Token.placed_congr same, List.map_eq_nil_iff.mp clean]
    rfl
  · rw [ofTokens_placed still, Token.placed_congr same, ← first]
    exact (Statement.unlinedAll_relabel (fun _ => rfl) _).trans
      (Statement.unlinedAll_relabel (fun _ => rfl) _).symm
  · rw [ofTokens_placed still, Token.placed_congr same, ← first]
    exact (Statement.nodesAll_relabel _ _).trans
      (Statement.nodesAll_relabel (.lines (Token.lineAt tokens)) _).symm

/-- Placing the tokens does not change how many numbers are given. -/
theorem allocated_placed (nonempty : tokens ≠ []) :
    allocated (Token.placed tokens) = allocated tokens := by
  have same := allocated_relabel (Token.lineAt tokens) (Token.placed_ne_nil nonempty)
  rw [Token.placed_relabel] at same
  exact same.symm

/-- Tokens that differ in the lines of line ends and block marks only are read to the same program. -/
theorem ofTokens_relines {change : Token → Token} (relines : Token.Relines change)
    (read : ofTokens tokens = (program, [])) :
    ofTokens (tokens.map change) = (program, []) ∧
      allocated (tokens.map change) = allocated tokens := by
  by_cases empty : tokens = []
  · subst empty
    exact ⟨read, rfl⟩
  have still : tokens.map change ≠ [] := fun none => empty (List.map_eq_nil_iff.mp none)
  have same : Token.placed (tokens.map change) = Token.placed tokens := by
    apply Token.placed_congr
    rw [List.map_map]
    exact List.map_congr_left fun token _ => relines.unlined token
  obtain ⟨first, clean⟩ := Prod.mk.inj ((ofTokens_placed empty).symm.trans read)
  have placed : ofTokens (Token.placed tokens) = ((ofTokens (Token.placed tokens)).1, []) :=
    Prod.ext rfl (List.map_eq_nil_iff.mp clean)
  constructor
  · rw [ofTokens_placed still, same, placed, ← first]
    refine congrArg (·, []) (relabel_congr placed (fun token member written => ?_) fun _ _ => rfl)
    obtain ⟨place, inside, rfl⟩ := List.mem_mapIdx.mp member
    have here : change tokens[place] = tokens[place] := relines.written _ written
    simp [Relabeling.lines, Token.lineAt, Token.onLine, inside, here]
  · rw [← allocated_placed still, same, allocated_placed empty]

end Program

end OffsideScript
