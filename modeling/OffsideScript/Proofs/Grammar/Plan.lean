import OffsideScript.Proofs.Grammar.Steps

namespace OffsideScript

/-- What a reader can be asked for. -/
inductive Goal : Type → Type where
  | expression (level : Level) : Goal Expression
  | joined (level : Level) (left : Expression) : Goal Expression
  | suffixes (left : Expression) : Goal Expression
  | atom : Goal Expression
  | list (closing : Token.Kind) : Goal (List Expression)
  | items : Goal (List Expression)
  | pairs : Goal (List (Expression × Expression))
  | parameters : Goal (List Token)
  | statement : Goal Statement
  | branches : Goal (List (Expression × List Statement))
  | block (context : BlockContext) : Goal (List Statement)
  | statements (nested : Bool) : Goal (List Statement)
  | attempt : Goal (Option Statement)

/-- What a reader does with its cursor, up to the goals that it leaves to other readers. The end of the
file is never taken. -/
inductive Plan (α : Type) : Type 1 where
  | done (value : α)
  | fail (reason : GrammarError.Reason)
  | take {β : Type} (sort : Token.Kind → Option β) (live : sort .endOfFile = none)
      (taken : β → Token → Plan α) (other : Plan α)
  | look (kind : Token.Kind) (found other : Plan α)
  | name (taken : NodeId → Token → Plan α) (other : Plan α)
  | literal (taken : Literal → Plan α) (other : Plan α)
  | report (error : GrammarError) (next : Plan α)
  | ask {β : Type} (goal : Goal β) (next : β → Plan α)
  | ending (nested : Bool) (ended more : Plan α)
  | rescue (next : Option Statement → Plan α)

variable {α β : Type}

/-- The end of the file joins nothing. -/
theorem Level.joiner?_endOfFile (level : Level) : level.joiner? .endOfFile = none := by
  cases level <;> rfl

/-- The end of the file is no operator. -/
theorem UnaryOperator.ofKind?_endOfFile : ofKind? .endOfFile = none := rfl

/-- The end of the file is no keyword. -/
theorem Constant.ofKeyword?_endOfFile : ofKeyword? .endOfFile = none := rfl

namespace Plan

/-- Tokens of a single kind. -/
def exactly (kind found : Token.Kind) : Option Unit :=
  if found = kind then some () else none

/-- A kind is exactly another one if they are the same. -/
@[simp] theorem exactly_eq_some {kind found : Token.Kind} {same : Unit} :
    exactly kind found = some same ↔ found = kind := by
  simp [exactly]

/-- What is taken is not the end of the file. -/
theorem ne_endOfFile {sort : Token.Kind → Option β} {kind : Token.Kind} {found : β}
    (live : sort .endOfFile = none) (sorted : sort kind = some found) : kind ≠ .endOfFile := by
  rintro rfl
  cases live.symm.trans sorted

/-- A token that carries a literal is not the end of the file. -/
theorem literal_ne_endOfFile {kind : Token.Kind} (carrier : kind = .number ∨ kind = .text) :
    kind ≠ .endOfFile := by
  rcases carrier with rfl | rfl <;> decide

/-- Takes a token of one kind if it is there. -/
abbrev meet (kind : Token.Kind) (taken : Token → Plan α) (other : Plan α)
    (live : exactly kind .endOfFile = none := by decide) : Plan α :=
  take (exactly kind) live (fun _ => taken) other

/-- Takes a token that has to be there. -/
abbrev expect (kind : Token.Kind) (reason : GrammarError.Reason) (next : Token → Plan α)
    (live : exactly kind .endOfFile = none := by decide) : Plan α :=
  meet kind next (fail reason) live

/-- Ends the line behind a tree. -/
abbrev endLine (context : LineContext) (tree : α) : Plan α :=
  expect .newline (.lineEnd context) fun _ => done tree

/-- Assigns a value to a target that can be assigned, and reports a mistake at the equals sign otherwise. -/
def assign (target : Expression) (equals : Token) (value : Expression) : Plan Expression :=
  match target with
  | .variable node token => done (.assign node token value)
  | .index object bracket position => done (.setIndex object bracket position value)
  | target => report (.at equals .assignmentTarget) (done target)

/-- Closes a map behind its pairs. -/
abbrev entries (trees : List (Expression × Expression)) : Plan Expression :=
  expect .rightBrace .mapEnd fun _ => done (.map trees)

/-- Closes the parameters of a function and reads its body. -/
abbrev body (name : Token) (parameters : List Token) : Plan Statement :=
  expect .rightParen .parametersEnd fun _ => ask (.block .functionDeclaration) fun body =>
    done (.function name parameters body)

/-- Reads the statements between an indent and a dedent. -/
abbrev indented (context : BlockContext) : Plan (List Statement) :=
  expect .indent (.block context) fun _ => ask (.statements true) fun body =>
    expect .dedent .blockEnd fun _ => done body

/-- Reads the statements that come after an attempt at one. -/
def further (nested : Bool) (read : Option Statement) : Plan (List Statement) :=
  match read with
  | some first => ask (.statements nested) fun rest => done (first :: rest)
  | none => ask (.statements nested) done

end Plan

open Plan in
/-- The plan of each reader. -/
def Goal.plan : {α : Type} → Goal α → Plan α
  | _, .expression .assignment =>
      ask (.expression .conditional) fun target =>
        meet .equal (fun equals => ask (.expression .assignment) (assign target equals))
          (done target)
  | _, .expression .conditional =>
      ask (.expression .disjunction) fun condition =>
        meet .question
          (fun _ => ask (.expression .conditional) fun whenTrue =>
            expect .colon .conditionalColon fun _ =>
              ask (.expression .conditional) fun whenFalse =>
                done (.conditional condition whenTrue whenFalse))
          (done condition)
  | _, .expression .power =>
      ask (.expression .sign) fun base =>
        meet .caret
          (fun token => ask (.expression .power) fun exponent =>
            done (.binary .power token base exponent))
          (done base)
  | _, .expression .sign =>
      take UnaryOperator.ofKind? UnaryOperator.ofKind?_endOfFile
        (fun operator token => ask (.expression .sign) fun operand =>
          done (.unary operator token operand))
        (ask (.expression .application) done)
  | _, .expression .application =>
      ask (.expression .atom) fun callee => ask (.suffixes callee) done
  | _, .expression .atom => ask .atom done
  | _, .expression level =>
      ask (.expression level.tighter) fun left => ask (.joined level left) done
  | _, .joined level left =>
      take level.joiner? level.joiner?_endOfFile
        (fun joiner token => ask (.expression level.tighter) fun right =>
          ask (.joined level (joiner.join token left right)) done)
        (done left)
  | _, .suffixes left =>
      meet .leftParen
        (fun _ => ask (.list .rightParen) fun arguments =>
          expect .rightParen .argumentsEnd fun closing =>
            ask (.suffixes (.call left closing arguments)) done)
        (meet .leftBracket
          (fun bracket => ask (.expression .sequence) fun position =>
            expect .rightBracket .indexEnd fun _ =>
              ask (.suffixes (.index left bracket position)) done)
          (done left))
  | _, .atom =>
      literal (fun value => done (.constant (.ofLiteral value)))
        (name (fun node token => done (.variable node token))
          (meet .leftParen
            (fun _ => ask (.expression .sequence) fun inner =>
              expect .rightParen .groupEnd fun _ => done (.group inner))
            (meet .leftBracket
              (fun _ => ask (.list .rightBracket) fun elements =>
                expect .rightBracket .arrayEnd fun _ => done (.array elements))
              (meet .leftBrace
                (fun _ => look .rightBrace (entries []) (ask .pairs entries))
                (take Constant.ofKeyword? Constant.ofKeyword?_endOfFile
                  (fun value _ => done (.constant value)) (fail .unexpectedToken))))))
  | _, .list closing => look closing (done []) (ask .items done)
  | _, .items =>
      ask (.expression .assignment) fun item =>
        meet .comma (fun _ => ask .items fun rest => done (item :: rest)) (done [item])
  | _, .pairs =>
      ask (.expression .assignment) fun key =>
        expect .fatArrow .mapArrow fun _ =>
          ask (.expression .assignment) fun value =>
            meet .comma (fun _ => ask .pairs fun rest => done ((key, value) :: rest))
              (done [(key, value)])
  | _, .parameters =>
      expect .identifier .parameterName fun parameter =>
        meet .comma (fun _ => ask .parameters fun rest => done (parameter :: rest))
          (done [parameter])
  | _, .statement =>
      meet .printWord
        (fun keyword => ask (.expression .sequence) fun value =>
          endLine .printStatement (.print keyword value))
      (meet .letWord
        (fun _ => expect .identifier .variableName fun name =>
          meet .equal
            (fun _ => ask (.expression .sequence) fun initial =>
              endLine .letStatement (.declare name (some initial)))
            (endLine .letStatement (.declare name none)))
      (meet .ifWord
        (fun _ => ask (.expression .sequence) fun condition =>
          ask (.block .ifWord) fun body => ask .branches fun rest =>
            done (.branch ((condition, body) :: rest)))
      (meet .whileWord
        (fun _ => ask (.expression .sequence) fun condition =>
          ask (.block .whileWord) fun body => done (.loop condition body))
      (meet .funcWord
        (fun _ => expect .identifier .functionName fun name =>
          expect .leftParen .parametersStart fun _ =>
            look .rightParen (body name []) (ask .parameters (body name)))
      (meet .retWord
        (fun keyword => look .newline (endLine .retStatement (.ret keyword none))
          (ask (.expression .sequence) fun value =>
            endLine .retStatement (.ret keyword (some value))))
      (meet .breakWord (fun keyword => endLine .breakWord (.breakLoop keyword))
      (meet .continueWord (fun keyword => endLine .continueWord (.continueLoop keyword))
      (ask (.expression .sequence) fun value =>
        endLine .expressionStatement (.evaluate value)))))))))
  | _, .branches =>
      meet .elifWord
        (fun _ => ask (.expression .sequence) fun condition =>
          ask (.block .elifWord) fun body => ask .branches fun rest =>
            done ((condition, body) :: rest))
        (meet .elseWord
          (fun _ => ask (.block .elseWord) fun body =>
            done [(.constant (.boolean true), body)])
          (done []))
  | _, .block context => meet .colon (fun _ => indented context) (indented context)
  | _, .statements nested =>
      ending nested (done []) (ask .attempt (further nested))
  | _, .attempt => rescue done

/-- The reader for a goal. -/
def Goal.read (fuel : Nat) : {α : Type} → Goal α → Reader α
  | _, .expression level => Reader.expression fuel level
  | _, .joined level left => Reader.joined fuel level left
  | _, .suffixes left => Reader.suffixes fuel left
  | _, .atom => Reader.atom fuel
  | _, .list closing => Reader.list fuel closing
  | _, .items => Reader.items fuel
  | _, .pairs => Reader.pairs fuel
  | _, .parameters => Reader.parameters fuel
  | _, .statement => Reader.statement fuel
  | _, .branches => Reader.branches fuel
  | _, .block context => Reader.block fuel context
  | _, .statements nested => Reader.statements fuel nested
  | _, .attempt => Reader.attempt fuel

/-- Follows a plan. -/
def Plan.run (fuel : Nat) : Plan α → Reader α
  | done value, cursor => .ok value cursor
  | fail reason, cursor => .error (.mistake (.at cursor.current reason)) cursor
  | take sort _ taken other, cursor =>
      match sort cursor.current.kind with
      | some found => (taken found cursor.current).run fuel cursor.advance
      | none => other.run fuel cursor
  | look kind found other, cursor =>
      if cursor.current.kind = kind then found.run fuel cursor else other.run fuel cursor
  | name taken other, cursor =>
      if cursor.current.kind = .identifier then
        (taken cursor.nextNode cursor.current).run fuel
          { cursor.advance with nextNode := cursor.nextNode + 1 }
      else other.run fuel cursor
  | literal taken other, cursor =>
      if cursor.current.kind = .number ∨ cursor.current.kind = .text then
        match cursor.current.literal with
        | some value => (taken value).run fuel cursor.advance
        | none => .error (.mistake (.at cursor.current .malformedLiteral)) cursor.advance
      else other.run fuel cursor
  | report error next, cursor => next.run fuel (cursor.report error)
  | ask goal next, cursor =>
      match goal.read fuel cursor with
      | .ok value middle => (next value).run fuel middle
      | .error failure middle => .error failure middle
  | ending nested ended more, cursor =>
      if cursor.rest = [] ∨ nested = true ∧ cursor.current.kind = .dedent then
        ended.run fuel cursor
      else more.run fuel cursor
  | rescue next, cursor =>
      match Reader.statement fuel cursor with
      | .ok read middle => (next (some read)).run fuel middle
      | .error (.mistake error) middle => (next none).run fuel (cursor.recover middle error)
      | .error .outOfFuel middle => .error .outOfFuel middle

attribute [local simp] Goal.plan Plan.run

namespace Reader

open Plan (exactly)

/-- A test of the current kind is a choice by its sort. -/
theorem check_bind (kind : Token.Kind) (taken other : Reader α) :
    (check kind >>= fun same => if same then taken else other) =
      current >>= fun token => (exactly kind token.kind).elim other fun _ => taken := by
  funext cursor
  rw [bind_of_ok (check_eq kind cursor), bind_of_ok (current_eq cursor)]
  by_cases same : cursor.current.kind = kind <;> simp [exactly, same]

/-- Accepting a kind is a choice by the sort of the current token. -/
theorem accept_bind (kind : Token.Kind) (next : Bool → Reader α) :
    accept kind >>= next = current >>= fun token =>
      (exactly kind token.kind).elim (next false) fun _ => advance >>= fun _ => next true := by
  funext cursor
  rw [bind_of_ok (current_eq cursor)]
  by_cases same : cursor.current.kind = kind
  · rw [bind_of_ok ((accept_eq kind cursor).trans (if_pos same))]
    simp [exactly, same, bind_of_ok (advance_eq cursor)]
  · rw [bind_of_ok (accept_of_ne same)]
    simp [exactly, same]

/-- Requiring a kind is a choice by the sort of the current token, which fails without it. -/
theorem expect_bind (kind : Token.Kind) (reason : GrammarError.Reason) (next : Token → Reader α) :
    expect kind reason >>= next = current >>= fun token =>
      (exactly kind token.kind).elim (fail reason) fun _ => advance >>= next := by
  funext cursor
  rw [bind_of_ok (current_eq cursor)]
  by_cases same : cursor.current.kind = kind
  · rw [bind_of_ok ((expect_eq kind reason cursor).trans (if_pos same))]
    simp [exactly, same, bind_of_ok (advance_eq cursor)]
  · rw [bind_of_error ((expect_eq kind reason cursor).trans (if_neg same))]
    simp [exactly, same, fail, bind_of_ok (current_eq cursor)]
    rfl

/-- The end of a line is the newline that is required. -/
theorem endLine_bind (context : LineContext) (next : Unit → Reader α) :
    endLine context >>= next = expect .newline (.lineEnd context) >>= fun _ => next () := by
  rw [endLine, bind_assoc]
  rfl

end Reader

namespace Plan

variable {fuel : Nat}

/-- A plan that is done gives its value. -/
theorem run_done (value : α) : (done value).run fuel = pure value := by
  funext cursor
  rw [run]
  rfl

/-- A plan that fails gives its reason. -/
theorem run_fail (reason : GrammarError.Reason) :
    (fail reason : Plan α).run fuel = Reader.fail reason := by
  funext cursor
  rw [run]
  rfl

/-- A plan that asks for a phrase goes on with what is read. -/
theorem run_ask (goal : Goal β) (next : β → Plan α) :
    (ask goal next).run fuel = goal.read fuel >>= fun value => (next value).run fuel := by
  funext cursor
  rw [run]
  cases ran : goal.read fuel cursor with
  | ok value middle => rw [bind_of_ok ran]
  | error failure middle => rw [bind_of_error ran]

/-- A plan that takes a token goes on by the sort that it finds. -/
theorem run_take (sort : Token.Kind → Option β) (live : sort .endOfFile = none)
    (taken : β → Token → Plan α) (other : Plan α) :
    (take sort live taken other).run fuel = Reader.current >>= fun token =>
      (sort token.kind).elim (other.run fuel) fun found =>
        Reader.advance >>= fun token => (taken found token).run fuel := by
  funext cursor
  rw [run, bind_of_ok (Reader.current_eq cursor)]
  cases sort cursor.current.kind <;> rfl

/-- A plan that meets a token of one kind steps over it, or goes the other way. -/
theorem run_meet (kind : Token.Kind) (taken : Token → Plan α) (other : Plan α)
    (live : exactly kind .endOfFile = none) (fuel : Nat) (cursor : Cursor) :
    (meet kind taken other live).run fuel cursor =
      if cursor.current.kind = kind then (taken cursor.current).run fuel cursor.advance
      else other.run fuel cursor := by
  rw [run]
  by_cases same : cursor.current.kind = kind <;> simp [exactly, same]

/-- A plan that looks at a token leaves it there. -/
theorem run_look (kind : Token.Kind) (found other : Plan α) :
    (look kind found other).run fuel = Reader.current >>= fun token =>
      (exactly kind token.kind).elim (other.run fuel) fun _ => found.run fuel := by
  funext cursor
  rw [run, bind_of_ok (Reader.current_eq cursor)]
  by_cases same : cursor.current.kind = kind <;> simp [exactly, same]

/-- The plan of an assignment does what the reader does. -/
theorem run_assign (target : Expression) (equals : Token) (value : Expression) :
    (assign target equals value).run fuel = Reader.assign target equals value := by
  cases target <;> rfl

end Plan

namespace Goal

open Plan Reader in
/-- The reader of expressions follows its plan. -/
theorem expression_read_succ (fuel : Nat) (level : Level) :
    Reader.expression (fuel + 1) level = (Goal.expression level).plan.run fuel := by
  cases level with
  | assignment =>
      rw [Reader.expression]
      simp only [plan, run_ask, run_take, run_assign, run_done, check_bind]
      rfl
  | conditional =>
      rw [Reader.expression]
      simp only [plan, run_ask, run_take, run_done, run_fail, accept_bind, expect_bind]
      rfl
  | power =>
      rw [Reader.expression]
      simp only [plan, run_ask, run_take, run_done, check_bind]
      rfl
  | sign =>
      rw [Reader.expression]
      simp only [plan, run_take, run_ask, run_done, bind_pure]
      congr
      funext token
      cases UnaryOperator.ofKind? token.kind <;> rfl
  | application =>
      rw [Reader.expression]
      simp only [plan, run_ask, run_done, bind_pure]
      rfl
  | atom =>
      rw [Reader.expression]
      simp only [plan, run_ask, run_done, bind_pure]
      rfl
  | _ =>
      simp only [plan, run_ask, run_done, bind_pure]
      rfl

open Plan Reader in
/-- The reader of atoms follows its plan. -/
theorem atom_read_succ (fuel : Nat) : Reader.atom (fuel + 1) = atom.plan.run fuel := by
  funext cursor
  have head (kind : Token.Kind) (taken : Token → Plan Expression) (other : Plan Expression)
      (live : exactly kind .endOfFile = none) := run_meet kind taken other live fuel cursor
  rw [Reader.atom, plan, bind_of_ok (current_eq cursor), run, run]
  cases kind : cursor.current.kind with
  | number | text =>
      refine (literal_eq cursor).trans ?_
      cases cursor.current.literal <;> rfl
  | identifier => rfl
  | leftParen | leftBracket =>
      simp only [head, kind, reduceCtorEq, or_self, if_true, if_false]
      simp only [run_ask, run_take, run_done, run_fail, expect_bind]
      rfl
  | leftBrace =>
      simp only [head, kind, reduceCtorEq, or_self, if_true, if_false]
      simp only [run_ask, run_take, run_look, run_done, run_fail, expect_bind, check_bind]
      rfl
  | _ =>
      simp only [head, kind, reduceCtorEq, or_self, if_false]
      rw [run_take, bind_of_ok (current_eq cursor), kind]
      rfl

open Plan Reader in
/-- The reader of statements follows its plan. -/
theorem statement_read_succ (fuel : Nat) :
    Reader.statement (fuel + 1) = statement.plan.run fuel := by
  funext cursor
  have head (kind : Token.Kind) (taken : Token → Plan Statement) (other : Plan Statement)
      (live : exactly kind .endOfFile = none) := run_meet kind taken other live fuel cursor
  rw [Reader.statement, plan, bind_of_ok (current_eq cursor)]
  cases kind : cursor.current.kind with
  | printWord | letWord | ifWord | whileWord | funcWord | retWord | breakWord | continueWord =>
      simp only [head, kind, reduceCtorEq, if_true, if_false]
      simp only [run_ask, run_take, run_look, run_done, run_fail, expect_bind, endLine_bind,
        accept_bind, check_bind, bind_map_left, pure_bind]
      rfl
  | _ =>
      simp only [head, kind, reduceCtorEq, if_false]
      simp only [run_ask, run_take, run_done, run_fail, expect_bind, endLine_bind]
      rfl

open Plan Reader in
/-- Every reader follows its plan, with one unit of fuel less for the phrases inside. -/
theorem read_succ (fuel : Nat) (goal : Goal α) :
    goal.read (fuel + 1) = goal.plan.run fuel := by
  cases goal with
  | expression level => exact expression_read_succ fuel level
  | joined level left =>
      show Reader.joined (fuel + 1) level left = _
      rw [Reader.joined]
      simp only [plan, run_take, run_ask, run_done, bind_pure]
      congr
      funext token
      cases level.joiner? token.kind <;> rfl
  | suffixes left =>
      funext cursor
      have head (kind : Token.Kind) (taken : Token → Plan Expression) (other : Plan Expression)
          (live : exactly kind .endOfFile = none) := run_meet kind taken other live fuel cursor
      show Reader.suffixes (fuel + 1) left cursor = _
      rw [Reader.suffixes, plan, bind_of_ok (current_eq cursor)]
      cases kind : cursor.current.kind with
      | leftParen | leftBracket =>
          simp only [head, kind, reduceCtorEq, if_true, if_false]
          simp only [run_ask, run_take, run_done, run_fail, expect_bind, bind_pure]
          rfl
      | _ =>
          simp only [head, kind, reduceCtorEq, if_false]
          rfl
  | atom => exact atom_read_succ fuel
  | list closing =>
      simp only [plan, run_look, run_ask, run_done, bind_pure]
      rw [read, Reader.list, check_bind]
      rfl
  | items =>
      show Reader.items (fuel + 1) = _
      rw [Reader.items]
      simp only [plan, run_take, run_ask, run_done, accept_bind]
      rfl
  | pairs =>
      show Reader.pairs (fuel + 1) = _
      rw [Reader.pairs]
      simp only [plan, run_take, run_ask, run_done, run_fail, accept_bind, expect_bind]
      rfl
  | parameters =>
      show Reader.parameters (fuel + 1) = _
      rw [Reader.parameters]
      simp only [plan, run_take, run_ask, run_done, run_fail, accept_bind, expect_bind]
      rfl
  | statement => exact statement_read_succ fuel
  | branches =>
      show Reader.branches (fuel + 1) = _
      rw [Reader.branches]
      simp only [plan, run_take, run_ask, run_done, accept_bind]
      rfl
  | block context =>
      show Reader.block (fuel + 1) context = _
      rw [Reader.block]
      simp only [plan, run_take, run_ask, run_done, run_fail, accept_bind, expect_bind]
      rfl
  | statements nested =>
      funext cursor
      show Reader.statements (fuel + 1) nested cursor = _
      rw [Reader.statements, plan, get_bind, run]
      simp only [List.isEmpty_iff, Bool.or_eq_true, Bool.and_eq_true, beq_iff_eq]
      split
      · rfl
      · rw [run_ask]
        refine congrFun (congrArg _ (funext fun read => ?_)) cursor
        cases read <;> simp only [further, run_ask, run_done, bind_pure] <;> rfl
  | attempt =>
      funext cursor
      rw [read, Reader.attempt, plan, run]
      dsimp only
      cases Reader.statement fuel cursor with
      | ok read middle => rfl
      | error failure middle => cases failure <;> rfl

/-- What holds without fuel, and for the plans of all goals if it holds for their readers, holds for all
readers. -/
theorem read_induction {motive : Nat → {α : Type} → Goal α → Reader α → Prop}
    (zero : ∀ {α : Type} (goal : Goal α), motive 0 goal (throw .outOfFuel))
    (succ : ∀ fuel, (∀ {α : Type} (goal : Goal α), motive fuel goal (goal.read fuel)) →
      ∀ {α : Type} (goal : Goal α), motive (fuel + 1) goal (goal.plan.run fuel))
    (fuel : Nat) (goal : Goal α) : motive fuel goal (goal.read fuel) := by
  induction fuel generalizing α with
  | zero =>
      have none := zero goal
      cases goal <;> exact none
  | succ fuel ih =>
      rw [read_succ]
      exact succ fuel (fun inner => ih inner) goal

end Goal

/-- The steps by which a plan comes to its value. -/
inductive Plan.Succeeds (fuel : Nat) (value : α) (last : Cursor) : Plan α → Cursor → Prop where
  | done : Succeeds fuel value last (.done value) last
  | taken {β : Type} {sort : Token.Kind → Option β} {live : sort .endOfFile = none}
      {next : β → Token → Plan α} {other : Plan α} {start : Cursor} {found : β}
      (sorted : sort start.current.kind = some found)
      (rest : Succeeds fuel value last (next found start.current) start.advance) :
      Succeeds fuel value last (.take sort live next other) start
  | untaken {β : Type} {sort : Token.Kind → Option β} {live : sort .endOfFile = none}
      {next : β → Token → Plan α} {other : Plan α} {start : Cursor}
      (sorted : sort start.current.kind = none) (rest : Succeeds fuel value last other start) :
      Succeeds fuel value last (.take sort live next other) start
  | found {kind : Token.Kind} {same other : Plan α} {start : Cursor}
      (ahead : start.current.kind = kind) (rest : Succeeds fuel value last same start) :
      Succeeds fuel value last (.look kind same other) start
  | missed {kind : Token.Kind} {same other : Plan α} {start : Cursor}
      (ahead : start.current.kind ≠ kind) (rest : Succeeds fuel value last other start) :
      Succeeds fuel value last (.look kind same other) start
  | named {next : NodeId → Token → Plan α} {other : Plan α} {start : Cursor}
      (named : start.current.kind = .identifier)
      (rest : Succeeds fuel value last (next start.nextNode start.current)
        { start.advance with nextNode := start.nextNode + 1 }) :
      Succeeds fuel value last (.name next other) start
  | unnamed {next : NodeId → Token → Plan α} {other : Plan α} {start : Cursor}
      (named : start.current.kind ≠ .identifier) (rest : Succeeds fuel value last other start) :
      Succeeds fuel value last (.name next other) start
  | carried {next : Literal → Plan α} {other : Plan α} {start : Cursor} {constant : Literal}
      (kind : start.current.kind = .number ∨ start.current.kind = .text)
      (carries : start.current.literal = some constant)
      (rest : Succeeds fuel value last (next constant) start.advance) :
      Succeeds fuel value last (.literal next other) start
  | uncarried {next : Literal → Plan α} {other : Plan α} {start : Cursor}
      (kind : ¬(start.current.kind = .number ∨ start.current.kind = .text))
      (rest : Succeeds fuel value last other start) :
      Succeeds fuel value last (.literal next other) start
  | reported {error : GrammarError} {next : Plan α} {start : Cursor}
      (rest : Succeeds fuel value last next (start.report error)) :
      Succeeds fuel value last (.report error next) start
  | asked {β : Type} {goal : Goal β} {next : β → Plan α} {start middle : Cursor} {part : β}
      (read : goal.read fuel start = .ok part middle)
      (rest : Succeeds fuel value last (next part) middle) :
      Succeeds fuel value last (.ask goal next) start
  | ended {nested : Bool} {ended more : Plan α} {start : Cursor}
      (ends : start.rest = [] ∨ nested = true ∧ start.current.kind = .dedent)
      (rest : Succeeds fuel value last ended start) :
      Succeeds fuel value last (.ending nested ended more) start
  | unended {nested : Bool} {ended more : Plan α} {start : Cursor}
      (ends : ¬(start.rest = [] ∨ nested = true ∧ start.current.kind = .dedent))
      (rest : Succeeds fuel value last more start) :
      Succeeds fuel value last (.ending nested ended more) start
  | read {next : Option Statement → Plan α} {start middle : Cursor} {tree : Statement}
      (read : Goal.statement.read fuel start = .ok tree middle)
      (rest : Succeeds fuel value last (next (some tree)) middle) :
      Succeeds fuel value last (.rescue next) start
  | recovered {next : Option Statement → Plan α} {start failed : Cursor} {error : GrammarError}
      (mistaken : Goal.statement.read fuel start = .error (.mistake error) failed)
      (rest : Succeeds fuel value last (next none) (start.recover failed error)) :
      Succeeds fuel value last (.rescue next) start

/-- A plan that gives a value comes to it step by step. -/
theorem Plan.succeeds {fuel : Nat} {plan : Plan α} {start last : Cursor} {value : α}
    (ran : plan.run fuel start = .ok value last) : plan.Succeeds fuel value last start := by
  induction plan generalizing start with
  | done result =>
      cases ran
      exact .done
  | fail reason => cases ran
  | take sort live next other ihNext ihOther =>
      rw [run] at ran
      cases sorted : sort start.current.kind with
      | some found =>
          rw [sorted] at ran
          exact .taken sorted (ihNext _ _ ran)
      | none =>
          rw [sorted] at ran
          exact .untaken sorted (ihOther ran)
  | look kind same other ihSame ihOther =>
      rw [run] at ran
      split at ran
      · next ahead => exact .found ahead (ihSame ran)
      · next ahead => exact .missed ahead (ihOther ran)
  | name next other ihNext ihOther =>
      rw [run] at ran
      split at ran
      · next named => exact .named named (ihNext _ _ ran)
      · next named => exact .unnamed named (ihOther ran)
  | literal next other ihNext ihOther =>
      rw [run] at ran
      split at ran
      · next kind =>
          cases carries : start.current.literal with
          | some constant =>
              rw [carries] at ran
              exact .carried kind carries (ihNext _ ran)
          | none =>
              rw [carries] at ran
              cases ran
      · next kind => exact .uncarried kind (ihOther ran)
  | report error next ih =>
      rw [run] at ran
      exact .reported (ih ran)
  | ask goal next ih =>
      rw [run] at ran
      cases read : goal.read fuel start with
      | ok part middle =>
          rw [read] at ran
          exact .asked read (ih _ ran)
      | error failure middle =>
          rw [read] at ran
          cases ran
  | ending nested ended more ihEnded ihMore =>
      rw [run] at ran
      split at ran
      · next ends => exact .ended ends (ihEnded ran)
      · next ends => exact .unended ends (ihMore ran)
  | rescue next ih =>
      rw [run] at ran
      cases read : Reader.statement fuel start with
      | ok tree middle =>
          rw [read] at ran
          exact .read read (ih _ ran)
      | error failure middle =>
          rw [read] at ran
          cases failure with
          | mistake error => exact .recovered read (ih _ ran)
          | outOfFuel => cases ran

end OffsideScript
