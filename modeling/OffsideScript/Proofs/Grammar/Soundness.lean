import OffsideScript.Proofs.Grammar.Derivation
import OffsideScript.Proofs.Grammar.Progress

namespace OffsideScript

namespace Derives

/-- A tree that is a name comes from this name alone. -/
theorem of_variable {level : Level} {first last node : NodeId} {tokens : List Token}
    {name : Token}
    (derives : Derives first tokens (.expression level (.variable node name)) last) :
    tokens = [name] ∧ name.kind = .identifier ∧ node = first ∧ last = first + 1 := by
  generalize shape : Phrase.expression level (.variable node name) = phrase at derives
  induction derives generalizing level with
  | tighter _ _ ih =>
      cases shape
      exact ih rfl
  | name named =>
      cases shape
      exact ⟨rfl, named, rfl, rfl⟩
  | @join _ _ _ _ _ _ _ joiner => cases joiner <;> cases shape
  | _ => cases shape

/-- A tree that is an index comes from an object and a position in brackets. -/
theorem of_index {level : Level} {first last : NodeId} {tokens : List Token}
    {objectTree positionTree : Expression} {opening : Token}
    (derives : Derives first tokens
      (.expression level (.index objectTree opening positionTree)) last) :
    ∃ object position closing middle, opening.kind = .leftBracket ∧
      closing.kind = .rightBracket ∧ tokens = object ++ opening :: (position ++ [closing]) ∧
      Derives first object (.expression .application objectTree) middle ∧
      Derives middle position (.expression .sequence positionTree) last := by
  generalize shape : Phrase.expression level (.index objectTree opening positionTree) = phrase
    at derives
  induction derives generalizing level with
  | tighter _ _ ih =>
      cases shape
      exact ih rfl
  | index opens closes indexed inside =>
      cases shape
      exact ⟨_, _, _, _, opens, closes, rfl, indexed, inside⟩
  | @join _ _ _ _ _ _ _ joiner => cases joiner <;> cases shape
  | _ => cases shape

/-- Each operator before an operand has a rule. -/
theorem unary {first last : NodeId} {sign : Token} {operator : UnaryOperator}
    {operand : List Token} {tree : Expression}
    (derives : Derives first operand (.expression .sign tree) last)
    (found : UnaryOperator.ofKind? sign.kind = some operator) :
    Derives first (sign :: operand) (.expression .sign (.unary operator sign tree)) last := by
  unfold UnaryOperator.ofKind? at found
  split at found
  · next signs =>
      cases found
      exact .negate signs derives
  · next signs =>
      cases found
      exact .not signs derives
  · cases found

/-- A keyword that stands for a value is derived as that value. -/
theorem keyword {first : NodeId} {token : Token} {value : Constant}
    (found : Constant.ofKeyword? token.kind = some value) :
    Derives first [token] (.expression .atom (.constant value)) first := by
  unfold Constant.ofKeyword? at found
  split at found
  · next kind =>
      cases found
      exact .trueWord kind
  · next kind =>
      cases found
      exact .falseWord kind
  · next kind =>
      cases found
      exact .nihlWord kind
  · cases found

end Derives

/-- The tokens between two cursors of the same list. -/
structure Cursor.Reads (start : Cursor) (tokens : List Token) (next : Cursor) : Prop where
  rest : start.rest = tokens ++ next.rest
  finish : next.finish = start.finish

namespace Cursor.Reads

theorem refl (cursor : Cursor) : cursor.Reads [] cursor := ⟨rfl, rfl⟩

theorem trans {first second third : Cursor} {before after : List Token}
    (left : first.Reads before second) (right : second.Reads after third) :
    first.Reads (before ++ after) third :=
  ⟨by rw [left.rest, right.rest, List.append_assoc], right.finish.trans left.finish⟩

/-- The end of the file stays what it is. -/
theorem closed {start next : Cursor} {tokens : List Token} (reads : start.Reads tokens next)
    (closed : start.finish.kind = .endOfFile) : next.finish.kind = .endOfFile :=
  reads.finish ▸ closed

/-- A token before the end of the file comes first. -/
theorem cons {cursor next : Cursor} {tokens : List Token} {kind : Token.Kind}
    (found : cursor.current.kind = kind) (live : kind ≠ .endOfFile)
    (closed : cursor.finish.kind = .endOfFile) (rest : cursor.advance.Reads tokens next) :
    cursor.Reads (cursor.current :: tokens) next := by
  have nonempty := rest_ne_nil closed (found ▸ live)
  refine ⟨?_, rest.finish⟩
  have after := rest.rest
  unfold current advance at *
  cases shape : cursor.rest with
  | nil => exact absurd shape nonempty
  | cons token others =>
      rw [shape] at after
      simpa using after

end Cursor.Reads

namespace Goal

variable {α : Type}

/-- What the tokens that are passed for a goal say about its result. Those that continue an expression derive
one of the same level together with the tokens before them. -/
def Yields : {α : Type} → Goal α → NodeId → List Token → α → NodeId → Prop
  | _, .expression level, first, tokens, tree, last =>
      Derives first tokens (.expression level tree) last
  | _, .joined level left, middle, tokens, tree, last =>
      ∀ first before, Derives first before (.expression level left) middle →
        Derives first (before ++ tokens) (.expression level tree) last
  | _, .suffixes left, middle, tokens, tree, last =>
      ∀ first before, Derives first before (.expression .application left) middle →
        Derives first (before ++ tokens) (.expression .application tree) last
  | _, .atom, first, tokens, tree, last => Derives first tokens (.expression .atom tree) last
  | _, .list _, first, tokens, trees, last => Derives first tokens (.list trees) last
  | _, .items, first, tokens, trees, last => Derives first tokens (.items trees) last
  | _, .pairs, first, tokens, trees, last => Derives first tokens (.pairs trees) last
  | _, .parameters, first, tokens, names, last => Names tokens names ∧ last = first
  | _, .statement, first, tokens, tree, last => Derives first tokens (.statement tree) last
  | _, .branches, first, tokens, trees, last => Derives first tokens (.branches trees) last
  | _, .block _, first, tokens, body, last => Derives first tokens (.block body) last
  | _, .statements _, first, tokens, trees, last => Derives first tokens (.statements trees) last
  | _, .attempt, first, tokens, read, last =>
      ∃ tree, read = some tree ∧ Derives first tokens (.statement tree) last

/-- The tokens that a reader passes without an error are as its goal says. -/
def Sound (goal : Goal α) (reader : Reader α) : Prop :=
  ∀ start value next, start.finish.kind = .endOfFile → reader start = .ok value next →
    next.errors = [] →
      ∃ tokens, start.Reads tokens next ∧ goal.Yields start.nextNode tokens value next.nextNode

end Goal

namespace Plan

variable {α : Type}

/-- Whatever a plan meets on the way, its tokens and its result are as they should be at its end. -/
def Builds : Plan α → (List Token → α → NodeId → Prop) → NodeId → Prop
  | done value, yields, node => yields [] value node
  | fail _, _, _ => True
  | take sort _ taken other, yields, node =>
      (∀ found token, sort token.kind = some found →
        (taken found token).Builds (fun rest => yields (token :: rest)) node) ∧
          other.Builds yields node
  | look _ same other, yields, node => same.Builds yields node ∧ other.Builds yields node
  | name taken other, yields, node =>
      (∀ token, token.kind = .identifier →
        (taken node token).Builds (fun rest => yields (token :: rest)) (node + 1)) ∧
          other.Builds yields node
  | literal taken other, yields, node =>
      (∀ token value, token.kind = .number ∨ token.kind = .text → token.literal = some value →
        (taken value).Builds (fun rest => yields (token :: rest)) node) ∧ other.Builds yields node
  | report _ _, _, _ => True
  | ask goal next, yields, node =>
      ∀ tokens value last, goal.Yields node tokens value last →
        (next value).Builds (fun rest => yields (tokens ++ rest)) last
  | ending _ ended more, yields, node => ended.Builds yields node ∧ more.Builds yields node
  | rescue next, yields, node =>
      ∀ tokens tree last, Derives node tokens (.statement tree) last →
        (next (some tree)).Builds (fun rest => yields (tokens ++ rest)) last

/-- A kind that sorts exactly is that kind. -/
theorem kind_eq {kind found : Token.Kind} {same : Unit} (sorted : exactly kind found = some same) :
    found = kind :=
  exactly_eq_some.mp sorted

/-- An error that was reported stays to the end. -/
theorem Succeeds.clean {fuel : Nat} {plan : Plan α} {start next : Cursor} {value : α}
    (succeeds : plan.Succeeds fuel value next start) (clean : next.errors = []) :
    start.errors = [] := by
  have kept := succeeds.follows.errors
  rw [clean] at kept
  exact List.suffix_nil.mp kept

/-- A plan that builds what it should reads it. -/
theorem sound {fuel : Nat}
    (goals : ∀ {β : Type} (goal : Goal β), goal.Sound (goal.read fuel)) {plan : Plan α}
    {yields : List Token → α → NodeId → Prop} {start next : Cursor} {value : α}
    (builds : plan.Builds yields start.nextNode) (closed : start.finish.kind = .endOfFile)
    (succeeds : plan.Succeeds fuel value next start) (errorless : next.errors = []) :
    ∃ tokens, start.Reads tokens next ∧ yields tokens value next.nextNode := by
  induction succeeds generalizing yields with
  | done => exact ⟨[], .refl _, builds⟩
  | untaken _ _ ih | missed _ _ ih | unnamed _ _ ih | uncarried _ _ ih | unended _ _ ih =>
      exact ih builds.2 closed
  | found _ _ ih | ended _ _ ih => exact ih builds.1 closed
  | @taken _ _ live _ _ _ _ sorted _ ih =>
      obtain ⟨rest, reads, yielded⟩ := ih (builds.1 _ _ sorted) closed
      exact ⟨_, .cons rfl (ne_endOfFile live sorted) closed reads, yielded⟩
  | named named _ ih =>
      obtain ⟨rest, reads, yielded⟩ := ih (builds.1 _ named) closed
      exact ⟨_, .cons named (by decide) closed ⟨reads.rest, reads.finish⟩, yielded⟩
  | carried kind carries _ ih =>
      obtain ⟨rest, reads, yielded⟩ := ih (builds.1 _ _ kind carries) closed
      exact ⟨_, .cons rfl (literal_ne_endOfFile kind) closed reads, yielded⟩
  | reported rest => cases rest.clean errorless
  | @asked _ goal _ start middle part read rest ih =>
      obtain ⟨tokens, reads, yielded⟩ :=
        goals goal start part middle closed read (rest.clean errorless)
      obtain ⟨others, readsRest, built⟩ := ih (builds _ _ _ yielded) (reads.closed closed)
      exact ⟨_, reads.trans readsRest, built⟩
  | @read _ start middle tree read rest ih =>
      obtain ⟨tokens, reads, derived⟩ :=
        goals .statement start tree middle closed read (rest.clean errorless)
      obtain ⟨others, readsRest, built⟩ := ih (builds _ _ _ derived) (reads.closed closed)
      exact ⟨_, reads.trans readsRest, built⟩
  | recovered mistaken rest =>
      have reported := rest.clean errorless
      rw [Cursor.recover_errors] at reported
      cases reported

end Plan

attribute [local simp] Goal.Yields Plan.Builds

namespace Goal

variable {α : Type}

/-- What is yielded one level tighter is derived at the level. -/
theorem loosen (level : Level) {first last : NodeId} {tokens : List Token} {tree : Expression}
    (looser : level ≠ .atom) (yields : (expression level.tighter).Yields first tokens tree last) :
    Derives first tokens (.expression level tree) last :=
  .tighter looser yields

/-- The target of an assignment is read as any other operand, and its tree tells which tokens it came from. -/
theorem assignment_builds (first : NodeId) :
    (expression .assignment).plan.Builds ((expression .assignment).Yields first) first := by
  intro head target middle derivesTarget
  refine ⟨fun _ equals sorted value tree last derivesValue => ?_, ?_⟩
  · have assigns := Plan.kind_eq sorted
    cases target with
    | «variable» node name =>
        obtain ⟨rfl, named, rfl, rfl⟩ := Derives.of_variable derivesTarget
        simpa [Plan.assign] using Derives.assign named assigns derivesValue
    | index object bracket position =>
        obtain ⟨_, _, _, _, opens, closes, rfl, indexed, inside⟩ := Derives.of_index derivesTarget
        simpa [Plan.assign] using
          Derives.setIndex opens closes assigns indexed inside derivesValue
    | _ => trivial
  · simpa using loosen .assignment (by decide) derivesTarget

/-- The plan of a conditional builds one. -/
theorem conditional_builds (first : NodeId) :
    (expression .conditional).plan.Builds ((expression .conditional).Yields first) first := by
  intro condition conditionTree second decides
  refine ⟨fun _ question asks whenTrue trueTree third holds => ?_, ?_⟩
  · refine ⟨fun _ colon separates whenFalse falseTree last fails => ?_, trivial⟩
    simpa using Derives.conditional (Plan.kind_eq asks)
      (Plan.kind_eq separates) decides holds fails
  · simpa using loosen .conditional (by decide) decides

/-- The plan of a power builds one. -/
theorem power_builds (first : NodeId) :
    (expression .power).plan.Builds ((expression .power).Yields first) first := by
  intro base baseTree middle lower
  refine ⟨fun _ caret raises exponent exponentTree last upper => ?_, ?_⟩
  · simpa using Derives.power (Plan.kind_eq raises) lower upper
  · simpa using loosen .power (by decide) lower

/-- The plan of a sign builds a unary expression or an application. -/
theorem sign_builds (first : NodeId) :
    (expression .sign).plan.Builds ((expression .sign).Yields first) first := by
  refine ⟨fun operator token found tokens tree last inner => ?_, fun tokens tree last inner => ?_⟩
  · simpa using Derives.unary inner found
  · simpa using loosen .sign (by decide) inner

/-- An operand that is followed by a chain of its level is of this level. -/
theorem chain_builds (level : Level) (looser : level ≠ .atom) (first : NodeId) :
    (Plan.ask (expression level.tighter) fun left => .ask (joined level left) .done).Builds
      ((expression level).Yields first) first := by
  intro operand left middle derives tokens tree last continues
  simpa using continues _ _ (loosen level looser derives)

/-- The plan of every level builds an expression of that level. -/
theorem expression_builds (level : Level) (first : NodeId) :
    (expression level).plan.Builds ((expression level).Yields first) first := by
  cases level with
  | assignment => exact assignment_builds first
  | conditional => exact conditional_builds first
  | power => exact power_builds first
  | sign => exact sign_builds first
  | atom =>
      intro tokens tree last derives
      simpa using derives
  | application =>
      intro operand left middle derives tokens tree last continues
      simpa using continues _ _ (loosen .application (by decide) derives)
  | sequence => exact chain_builds .sequence (by decide) first
  | disjunction => exact chain_builds .disjunction (by decide) first
  | conjunction => exact chain_builds .conjunction (by decide) first
  | equality => exact chain_builds .equality (by decide) first
  | comparison => exact chain_builds .comparison (by decide) first
  | sum => exact chain_builds .sum (by decide) first
  | product => exact chain_builds .product (by decide) first

/-- The plan of a chain builds on its left operand. -/
theorem joined_builds (level : Level) (left : Expression) (middle : NodeId) :
    (joined level left).plan.Builds ((joined level left).Yields middle) middle := by
  refine ⟨fun joiner operator found right rightTree node after => ?_, fun first before derives => ?_⟩
  · intro tokens tree last yields first before derives
    simpa using yields _ _ (.join (Level.joins_of_joiner? found) derives after)
  · simpa using derives

/-- The plan of calls and indices builds on the object. -/
theorem suffixes_builds (left : Expression) (middle : NodeId) :
    (suffixes left).plan.Builds ((suffixes left).Yields middle) middle := by
  refine ⟨fun _ opening opens arguments trees node passed => ?_,
    fun _ opening opens position positionTree node inside => ?_, fun first before derives => ?_⟩
  · refine ⟨fun _ closing closes tokens tree last yields first before derives => ?_, trivial⟩
    simpa using yields _ _ (.call (Plan.kind_eq opens) (Plan.kind_eq closes) derives passed)
  · refine ⟨fun _ closing closes tokens tree last yields first before derives => ?_, trivial⟩
    simpa using yields _ _ (.index (Plan.kind_eq opens) (Plan.kind_eq closes) derives inside)
  · simpa using derives

/-- The plan of an atom builds one. -/
theorem atom_builds (first : NodeId) : atom.plan.Builds (atom.Yields first) first := by
  refine ⟨?literal, ?name, ?group, ?array, ?map, ?keyword, trivial⟩
  case literal => exact fun token value kind carries => .literal kind carries
  case name => exact fun token named => .name named
  case group =>
    intro _ opening opens tokens tree last inside
    refine ⟨fun _ closing closes => ?_, trivial⟩
    exact .group (Plan.kind_eq opens) (Plan.kind_eq closes) inside
  case array =>
    intro _ opening opens tokens trees last inside
    refine ⟨fun _ closing closes => ?_, trivial⟩
    exact .array (Plan.kind_eq opens) (Plan.kind_eq closes) inside
  case map =>
    intro _ opening opens
    refine ⟨⟨fun _ closing closes => ?_, trivial⟩, fun tokens trees last inside => ?_⟩
    · exact .map (Plan.kind_eq opens) (Plan.kind_eq closes) .noPairs
    · refine ⟨fun _ closing closes => ?_, trivial⟩
      exact .map (Plan.kind_eq opens) (Plan.kind_eq closes) (.somePairs inside)
  case keyword => exact fun value token found => .keyword found

/-- The plan of parameters builds a list of names. -/
theorem parameters_builds (first : NodeId) :
    parameters.plan.Builds (parameters.Yields first) first := by
  refine ⟨fun _ name named => ⟨fun _ comma separates tokens names last listed => ?_, ?_⟩, trivial⟩
  · refine ⟨?_, listed.2⟩
    rw [List.append_nil]
    exact .cons (Plan.kind_eq named) (Plan.kind_eq separates) listed.1
  · exact ⟨.single (Plan.kind_eq named), rfl⟩

/-- The plan of a statement builds one. -/
theorem statement_builds (first : NodeId) : statement.plan.Builds (statement.Yields first) first := by
  refine ⟨?print, ?declare, ?branch, ?loop, ?function, ?ret, ?breakLoop, ?continueLoop, ?evaluate⟩
  case print =>
    intro _ keyword starts value tree last inner
    refine ⟨fun _ newline ends => ?_, trivial⟩
    exact .print (Plan.kind_eq starts) (Plan.kind_eq ends) inner
  case declare =>
    intro _ keyword starts
    refine ⟨fun _ name named => ⟨fun _ equals assigns value tree last inner => ?_, ?_⟩, trivial⟩
    · refine ⟨fun _ newline ends => ?_, trivial⟩
      exact .declareValue (Plan.kind_eq starts) (Plan.kind_eq named) (Plan.kind_eq assigns)
        (Plan.kind_eq ends) inner
    · refine ⟨fun _ newline ends => ?_, trivial⟩
      exact .declare (Plan.kind_eq starts) (Plan.kind_eq named) (Plan.kind_eq ends)
  case branch =>
    intro _ keyword starts condition tree second decides body bodyTree third inner rest trees last others
    simpa using Derives.branch (Plan.kind_eq starts) decides inner others
  case loop =>
    intro _ keyword starts condition tree middle decides body bodyTree last inner
    simpa using Derives.loop (Plan.kind_eq starts) decides inner
  case function =>
    intro _ keyword starts
    refine ⟨fun _ name named => ⟨fun _ opening opens => ⟨?_, ?_⟩, trivial⟩, trivial⟩
    · refine ⟨fun _ closing closes body bodyTree last inner => ?_, trivial⟩
      simpa using Derives.procedure (Plan.kind_eq starts) (Plan.kind_eq named)
        (Plan.kind_eq opens) (Plan.kind_eq closes) inner
    · rintro list names _ ⟨listed, rfl⟩
      refine ⟨fun _ closing closes body bodyTree last inner => ?_, trivial⟩
      simpa using Derives.function (Plan.kind_eq starts) (Plan.kind_eq named)
        (Plan.kind_eq opens) listed (Plan.kind_eq closes) inner
  case ret =>
    intro _ keyword starts
    refine ⟨⟨fun _ newline ends => ?_, trivial⟩, fun value tree last inner => ?_⟩
    · exact .ret (Plan.kind_eq starts) (Plan.kind_eq ends)
    · refine ⟨fun _ newline ends => ?_, trivial⟩
      exact .retValue (Plan.kind_eq starts) (Plan.kind_eq ends) inner
  case breakLoop =>
    intro _ keyword starts
    refine ⟨fun _ newline ends => ?_, trivial⟩
    exact .breakLoop (Plan.kind_eq starts) (Plan.kind_eq ends)
  case continueLoop =>
    intro _ keyword starts
    refine ⟨fun _ newline ends => ?_, trivial⟩
    exact .continueLoop (Plan.kind_eq starts) (Plan.kind_eq ends)
  case evaluate =>
    intro value tree last inner
    refine ⟨fun _ newline ends => ?_, trivial⟩
    exact .evaluate (Plan.kind_eq ends) inner

/-- The plan of further branches builds them. -/
theorem branches_builds (first : NodeId) : branches.plan.Builds (branches.Yields first) first := by
  refine ⟨?elif, ?otherwise, .noBranch⟩
  case elif =>
    intro _ keyword starts condition tree second decides body bodyTree third inner rest trees last others
    simpa using Derives.elif (Plan.kind_eq starts) decides inner others
  case otherwise =>
    intro _ keyword starts body bodyTree last inner
    simpa using Derives.otherwise (Plan.kind_eq starts) inner

/-- The plan of a block builds its statements. -/
theorem block_builds (context : BlockContext) (first : NodeId) :
    (block context).plan.Builds ((block context).Yields first) first := by
  refine ⟨fun _ colon announces => ?_, ?_⟩
  · refine ⟨fun _ indent opens body trees last inner => ⟨fun _ dedent closes => ?_, trivial⟩, trivial⟩
    exact .colonBlock (Plan.kind_eq announces) (Plan.kind_eq opens) (Plan.kind_eq closes) inner
  · refine ⟨fun _ indent opens body trees last inner => ⟨fun _ dedent closes => ?_, trivial⟩, trivial⟩
    exact .block (Plan.kind_eq opens) (Plan.kind_eq closes) inner

/-- Every plan follows the rules of the grammar. -/
theorem plan_builds (goal : Goal α) (first : NodeId) : goal.plan.Builds (goal.Yields first) first := by
  cases goal with
  | expression level => exact expression_builds level first
  | joined level left => exact joined_builds level left first
  | suffixes left => exact suffixes_builds left first
  | atom => exact atom_builds first
  | list closing =>
      refine ⟨.noItems, fun tokens trees last derives => ?_⟩
      simpa using Derives.someItems derives
  | items =>
      intro item tree middle inner
      refine ⟨fun _ comma separates rest trees last others => ?_, ?_⟩
      · simpa using Derives.nextItem (Plan.kind_eq separates) inner others
      · simpa using Derives.lastItem inner
  | pairs =>
      intro key keyTree second before
      refine ⟨fun _ arrow points value valueTree third after => ⟨?_, ?_⟩, trivial⟩
      · intro _ comma separates rest trees last others
        simpa using
          Derives.nextPair (Plan.kind_eq points) (Plan.kind_eq separates) before after others
      · simpa using Derives.lastPair (Plan.kind_eq points) before after
  | parameters => exact parameters_builds first
  | statement => exact statement_builds first
  | branches => exact branches_builds first
  | block context => exact block_builds context first
  | statements nested =>
      refine ⟨.noStatement, ?_⟩
      rintro tokens _ middle ⟨tree, rfl, inner⟩ rest trees last others
      simpa using Derives.nextStatement inner others
  | attempt =>
      intro tokens tree last derives
      rw [← List.append_nil tokens] at derives
      exact ⟨tree, rfl, derives⟩

/-- The tokens that readers pass without an error are as their goals say. -/
theorem sound (fuel : Nat) (goal : Goal α) : goal.Sound (goal.read fuel) := by
  refine read_induction (motive := fun _ _ goal reader => goal.Sound reader)
    (fun goal _ _ _ _ ran => ?_) (fun fuel goals _ goal start _ _ closed ran clean => ?_) fuel goal
  · cases ran
  · exact Plan.sound goals (goal.plan_builds start.nextNode) closed (Plan.succeeds ran) clean

end Goal

namespace Reader

/-- An attempt makes no mistake, for it reports it and recovers. -/
theorem attempt_ne_mistake (fuel : Nat) (start : Cursor) (error : GrammarError) (next : Cursor) :
    attempt fuel start ≠ .error (.mistake error) next := by
  cases fuel with
  | zero => exact fun ran => nomatch ran
  | succ fuel =>
      intro ran
      cases inner : statement fuel start with
      | ok tree after =>
          rw [attempt_of_ok inner] at ran
          cases ran
      | error failure after =>
          cases failure with
          | mistake error =>
              rw [attempt_of_mistake inner] at ran
              cases ran
          | outOfFuel =>
              rw [attempt_of_outOfFuel inner] at ran
              cases ran

/-- Every mistake is reported by the statement that it stands in. -/
theorem statements_ne_mistake (fuel : Nat) (nested : Bool) : ∀ start error next,
    statements fuel nested start ≠ .error (.mistake error) next := by
  induction fuel with
  | zero => exact fun _ _ _ ran => nomatch ran
  | succ fuel ih =>
      intro start error next ran
      rw [statements, get_bind] at ran
      split at ran
      · cases ran
      · cases attempted : attempt fuel start with
        | ok read middle =>
            rw [bind_of_ok attempted] at ran
            cases read with
            | none => exact ih middle error next ran
            | some first =>
                cases further : statements fuel nested middle with
                | ok others last =>
                    dsimp only at ran
                    rw [bind_of_ok further] at ran
                    cases ran
                | error failure last =>
                    dsimp only at ran
                    rw [bind_of_error further] at ran
                    cases ran
                    exact ih middle error next further
        | error failure middle =>
            rw [bind_of_error attempted] at ran
            cases ran
            exact attempt_ne_mistake fuel start error next attempted

/-- Outside of blocks reading goes on to the end of the file. -/
theorem statements_rest (fuel : Nat) : ∀ start trees next,
    statements fuel false start = .ok trees next → next.rest = [] := by
  induction fuel with
  | zero => exact fun _ _ _ ran => nomatch ran
  | succ fuel ih =>
      intro start trees next ran
      rw [statements, get_bind] at ran
      split at ran
      · next ended =>
          cases ran
          simpa using ended
      · obtain ⟨read, middle, _, ran⟩ := bind_eq_ok ran
        cases read with
        | none => exact ih middle _ _ ran
        | some first =>
            obtain ⟨others, last, further, ran⟩ := bind_eq_ok ran
            cases ran
            exact ih middle _ _ further

end Reader

namespace Program

/-- Reading a token list gives a program in all cases. -/
theorem ofTokens_eq (tokens : List Token) :
    ∃ program next, Reader.statements (Reader.enoughFuel tokens) false (.ofTokens tokens) =
        .ok program next ∧
      Program.ofTokens tokens = (program, next.errors.reverse) := by
  have settles := ofTokens_settles tokens
  unfold Program.ofTokens
  cases ran : Reader.statements (Reader.enoughFuel tokens) false (.ofTokens tokens) with
  | ok program next => exact ⟨program, next, rfl, rfl⟩
  | error failure next =>
      cases failure with
      | mistake error => exact absurd ran (Reader.statements_ne_mistake _ _ _ _ _)
      | outOfFuel =>
          rw [ran] at settles
          exact settles.elim

/-- The number of references that are numbered while tokens are read. -/
def allocated (tokens : List Token) : Nat :=
  (finalState (Reader.statements (Reader.enoughFuel tokens) false (.ofTokens tokens))).nextNode

/-- What is read without errors is derived from the tokens before the end of the file, and its references
have all numbers that were given. -/
theorem derives_allocated {tokens : List Token} (clean : (Program.ofTokens tokens).2 = []) :
    Derives 0 (tokens.takeWhile (·.kind ≠ .endOfFile))
      (.statements (Program.ofTokens tokens).1) (allocated tokens) := by
  obtain ⟨program, next, ran, read⟩ := ofTokens_eq tokens
  rw [read] at clean ⊢
  obtain ⟨body, reads, derives⟩ := (Goal.statements false).sound (Reader.enoughFuel tokens)
    (.ofTokens tokens) program next (Cursor.ofTokens_closed tokens) ran (List.reverse_eq_nil_iff.mp clean)
  have whole := reads.rest
  rw [Reader.statements_rest _ _ _ _ ran, List.append_nil] at whole
  rw [← whole] at derives
  unfold allocated
  rw [ran]
  exact derives

/-- A program that is read without an error is derived from the tokens before the end of file. -/
theorem derives_of_ofTokens {tokens : List Token} (clean : (Program.ofTokens tokens).2 = []) :
    ∃ last, Derives 0 (tokens.takeWhile (·.kind ≠ .endOfFile))
      (.statements (Program.ofTokens tokens).1) last :=
  ⟨_, derives_allocated clean⟩

end Program

end OffsideScript
