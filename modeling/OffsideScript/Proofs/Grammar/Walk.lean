import OffsideScript.Proofs.Grammar.Soundness

namespace OffsideScript

namespace Reader

/-- The statements of a block go on to its end or to the end of the file. -/
theorem block_rest {fuel : Nat} {start next : Cursor} {trees : List Statement}
    (ran : statements fuel true start = .ok trees next) (inside : next.current.kind ≠ .dedent) :
    next.rest = [] := by
  induction fuel generalizing start trees with
  | zero => cases ran
  | succ fuel ih =>
      rw [statements, get_bind] at ran
      split at ran
      · next ended =>
          cases ran
          simpa [inside] using ended
      · obtain ⟨read, middle, _, ran⟩ := bind_eq_ok ran
        cases read with
        | none => exact ih ran
        | some first =>
            obtain ⟨others, last, further, ran⟩ := bind_eq_ok ran
            cases ran
            exact ih further

/-- Relations between the cursors before and after reading, one for reading that succeeds and one for
reading that ends with a mistake, with the steps that keep to them. -/
structure Walk where
  passes : Cursor → Cursor → Prop
  fails : Cursor → Cursor → GrammarError → Prop
  refl : ∀ cursor, passes cursor cursor
  trans : ∀ {first second third}, passes first second → passes second third → passes first third
  after : ∀ {first second third error}, passes first second → fails second third error →
    fails first third error
  step : ∀ {cursor}, cursor.rest ≠ [] → cursor.current.kind ∉ [.indent, .dedent] →
    passes cursor cursor.advance
  number : ∀ cursor, passes cursor { cursor with nextNode := cursor.nextNode + 1 }
  assigned : ∀ {start next}, start.rest ≠ [] → start.current.kind = .equal →
    passes start.advance next → passes start (next.report (.at start.current .assignmentTarget))
  mistaken : ∀ cursor {reason}, reason ≠ .blockEnd → fails cursor cursor (.at cursor.current reason)
  malformed : ∀ {cursor}, cursor.rest ≠ [] → cursor.current.kind ∉ [.indent, .dedent] →
    fails cursor cursor.advance (.at cursor.current .malformedLiteral)
  enclosed : ∀ {start next}, start.rest ≠ [] → start.current.kind = .indent →
    passes start.advance next → next.rest ≠ [] → next.current.kind = .dedent →
      passes start next.advance
  unended : ∀ {start next}, start.rest ≠ [] → start.current.kind = .indent →
    passes start.advance next → next.rest = [] → fails start next (.at next.current .blockEnd)
  recovered : ∀ {start failed error}, start.rest ≠ [] → start.current.kind ≠ .dedent →
    start.Follows failed → fails start failed error → passes start (start.recover failed error)

end Reader

/-- Where a goal may be set inside of a block: statements are attempted before its end only. -/
def Goal.Ready : {α : Type} → Goal α → Cursor → Prop
  | _, .statements nested, _ => nested = true
  | _, .attempt, start => start.rest ≠ [] ∧ start.current.kind ≠ .dedent
  | _, _, _ => True

/-- A plan that neither bounds a block nor reports an error. -/
def Plan.Mild {α : Type} : Plan α → Prop
  | done _ => True
  | fail reason => reason ≠ .blockEnd
  | take sort _ taken other =>
      sort .indent = none ∧ sort .dedent = none ∧ (∀ found token, (taken found token).Mild) ∧
        other.Mild
  | look _ same other => same.Mild ∧ other.Mild
  | name taken other => (∀ node token, (taken node token).Mild) ∧ other.Mild
  | literal taken other => (∀ value, (taken value).Mild) ∧ other.Mild
  | ask goal next => (∀ start, goal.Ready start) ∧ ∀ value, (next value).Mild
  | _ => False

namespace Reader.Walk

variable {α β : Type} (walk : Walk)

/-- What a walk says of the outcome of reading. -/
def Holds (start : Cursor) : EStateM.Result Failure Cursor α → Prop
  | .ok _ next => walk.passes start next
  | .error (.mistake error) next => walk.fails start next error
  | .error .outOfFuel _ => True

/-- A reader keeps to a walk wherever its goal may be set. -/
def Leads (goal : Goal α) (reader : Reader α) : Prop :=
  ∀ start : Cursor, start.finish.kind = .endOfFile → goal.Ready start →
    walk.Holds start (reader start)

variable {walk}

/-- What holds after a stretch of reading holds of the whole. -/
theorem Holds.after {start middle : Cursor} (before : walk.passes start middle)
    {result : EStateM.Result Failure Cursor α} (holds : walk.Holds middle result) :
    walk.Holds start result := by
  cases result with
  | ok value next => exact walk.trans before holds
  | error failure next =>
      cases failure with
      | mistake error => exact walk.after before holds
      | outOfFuel => trivial

/-- A token that bounds no block is passed. -/
theorem advance {start : Cursor} (closed : start.finish.kind = .endOfFile)
    (inside : start.current.kind ∉ [.indent, .dedent, .endOfFile]) :
    walk.passes start start.advance := by
  simp only [List.mem_cons, List.not_mem_nil, or_false, not_or] at inside
  exact walk.step (Cursor.rest_ne_nil closed inside.2.2) (by simp [inside.1, inside.2.1])

section

variable {fuel : Nat}
  (goals : ∀ {β : Type} (goal : Goal β), walk.Leads goal (goal.read fuel))
include goals

/-- What is asked for is walked, and so is what comes after it. -/
theorem ask {goal : Goal β} {next : β → Plan α} {before start : Cursor}
    (reached : walk.passes before start) (closed : start.finish.kind = .endOfFile)
    (ready : goal.Ready start)
    (rest : ∀ value middle, middle.finish.kind = .endOfFile → walk.passes start middle →
      goal.read fuel start = .ok value middle → walk.Holds before ((next value).run fuel middle)) :
    walk.Holds before ((Plan.ask goal next).run fuel start) := by
  have holds := goals goal start closed ready
  rw [Plan.run]
  cases ran : goal.read fuel start with
  | ok value middle =>
      rw [ran] at holds
      exact rest value middle ((Goal.follows_of_ok ran).closed closed) holds ran
  | error failure middle =>
      rw [ran] at holds
      cases failure with
      | mistake error => exact walk.after reached holds
      | outOfFuel => trivial

/-- A mild plan keeps to the walk. -/
theorem mild (plan : Plan α) (mild : plan.Mild) {start : Cursor}
    (closed : start.finish.kind = .endOfFile) : walk.Holds start (plan.run fuel start) := by
  induction plan generalizing start with
  | done value => exact walk.refl start
  | fail reason => exact walk.mistaken start mild
  | take sort live taken other ihTaken ihOther =>
      obtain ⟨noIndent, noDedent, mildTaken, mildOther⟩ := mild
      rw [Plan.run]
      cases sorted : sort start.current.kind with
      | some found =>
          refine .after (advance closed fun bounds => ?_) (ihTaken found _ (mildTaken _ _) closed)
          simp only [List.mem_cons, List.not_mem_nil, or_false] at bounds
          rcases bounds with kind | kind | kind <;> rw [kind] at sorted
          · cases noIndent.symm.trans sorted
          · cases noDedent.symm.trans sorted
          · cases live.symm.trans sorted
      | none => exact ihOther mildOther closed
  | look kind same other ihSame ihOther =>
      rw [Plan.run]
      split
      · exact ihSame mild.1 closed
      · exact ihOther mild.2 closed
  | name taken other ihTaken ihOther =>
      rw [Plan.run]
      split
      · next named =>
          have passed : walk.passes start start.advance := advance closed (by rw [named]; decide)
          exact .after (walk.trans passed (walk.number start.advance))
            (ihTaken _ _ (mild.1 _ _) closed)
      · exact ihOther mild.2 closed
  | literal taken other ihTaken ihOther =>
      rw [Plan.run]
      split
      · next kind =>
          have inside : start.current.kind ∉ [.indent, .dedent, .endOfFile] := by
            rcases kind with kind | kind <;> rw [kind] <;> decide
          cases start.current.literal with
          | some value => exact .after (advance closed inside) (ihTaken _ (mild.1 _) closed)
          | none =>
              simp only [List.mem_cons, List.not_mem_nil, or_false, not_or] at inside
              exact walk.malformed (Cursor.rest_ne_nil closed inside.2.2)
                (by simp [inside.1, inside.2.1])
      · exact ihOther mild.2 closed
  | ask goal next ih =>
      refine ask goals (walk.refl start) closed (mild.1 start) fun value middle ended passed _ => ?_
      exact .after passed (ih value (mild.2 value) ended)
  | report error next ih => exact mild.elim
  | ending nested ended more ihEnded ihMore => exact mild.elim
  | rescue next ih => exact mild.elim

/-- A wrong target is reported at a token that was passed. -/
theorem assignment {start : Cursor} (closed : start.finish.kind = .endOfFile) :
    walk.Holds start ((Goal.expression .assignment).plan.run fuel start) := by
  refine ask goals (walk.refl start) closed trivial fun target middle ended passed _ =>
    .after passed ?_
  rw [Plan.run_meet]
  split
  · next equals =>
      have step : walk.passes middle middle.advance := advance ended (by rw [equals]; decide)
      refine ask goals step ended trivial fun value last _ reached _ => ?_
      have wrong := walk.assigned (Cursor.rest_ne_nil ended (by rw [equals]; decide)) equals reached
      cases target with
      | «variable» | index => exact walk.trans step reached
      | _ => exact wrong
  · exact walk.refl middle

/-- The statements of a block end at its end or at the end of the file. -/
theorem indented (context : BlockContext) {start : Cursor}
    (closed : start.finish.kind = .endOfFile) :
    walk.Holds start ((Plan.indented context).run fuel start) := by
  rw [Plan.run_meet]
  split
  · next opens =>
      have more : start.rest ≠ [] := Cursor.rest_ne_nil closed (by rw [opens]; decide)
      have inner := goals (.statements true) start.advance closed rfl
      rw [Goal.read] at inner
      rw [Plan.run, Goal.read]
      cases ran : Reader.statements fuel true start.advance with
      | ok body next =>
          rw [ran] at inner
          dsimp only
          rw [Plan.run_meet]
          split
          · next closes =>
              have follows := @Goal.follows_of_ok _ fuel (.statements true) _ _ _ ran
              have further := Cursor.rest_ne_nil (follows.closed closed) (by rw [closes]; decide)
              exact walk.enclosed more opens inner further closes
          · next astray => exact walk.unended more opens inner (block_rest ran astray)
      | error failure next =>
          cases failure with
          | mistake error => exact absurd ran (statements_ne_mistake _ _ _ _ _)
          | outOfFuel => trivial
  · exact walk.mistaken start GrammarError.Reason.noConfusion

/-- The plan of a block keeps to the walk, from its indent to its dedent. -/
theorem block (context : BlockContext) {start : Cursor} (closed : start.finish.kind = .endOfFile) :
    walk.Holds start ((Goal.block context).plan.run fuel start) := by
  rw [Goal.plan, Plan.run_meet]
  split
  · next announces =>
      exact .after (advance closed (by rw [announces]; decide)) (indented goals context closed)
  · exact indented goals context closed

/-- The plan of nested statements keeps to the walk. -/
theorem statements {start : Cursor} (closed : start.finish.kind = .endOfFile) :
    walk.Holds start ((Goal.statements true).plan.run fuel start) := by
  rw [Goal.plan, Plan.run]
  split
  · exact walk.refl start
  · next more =>
      have ready : Goal.attempt.Ready start := by simpa [Goal.Ready] using more
      refine ask goals (walk.refl start) closed ready fun read middle ended passed _ => ?_
      refine .after passed (mild goals _ ?_ ended)
      cases read <;> simp [Plan.further, Plan.Mild, Goal.Ready]

/-- The plan of an attempt keeps to the walk, with its recovery. -/
theorem attempt {start : Cursor} (closed : start.finish.kind = .endOfFile)
    (ready : Goal.attempt.Ready start) :
    walk.Holds start (Goal.attempt.plan.run fuel start) := by
  have holds := goals .statement start closed trivial
  have follows := Goal.statement.follows fuel start
  rw [Goal.read] at holds follows
  rw [Goal.plan, Plan.run]
  cases ran : Reader.statement fuel start with
  | ok read next =>
      rw [ran] at holds
      exact holds
  | error failure next =>
      rw [ran] at holds follows
      cases failure with
      | mistake error => exact walk.recovered ready.1 ready.2 follows holds
      | outOfFuel => trivial

/-- The plan of every goal that is ready keeps to the walk. -/
theorem plan (goal : Goal α) {start : Cursor} (closed : start.finish.kind = .endOfFile)
    (ready : goal.Ready start) : walk.Holds start (goal.plan.run fuel start) := by
  cases goal with
  | expression level =>
      cases level with
      | assignment => exact assignment goals closed
      | _ =>
          refine mild goals _ ?_ closed
          simp [Goal.plan, Plan.Mild, Goal.Ready, Plan.exactly, UnaryOperator.ofKind?]
  | joined level left =>
      refine mild goals _ ?_ closed
      cases level <;> simp [Goal.plan, Plan.Mild, Goal.Ready, Level.joiner?]
  | block context => exact block goals context closed
  | statements nested =>
      cases ready
      exact statements goals closed
  | attempt => exact attempt goals closed ready
  | _ =>
      refine mild goals _ ?_ closed
      simp [Goal.plan, Plan.Mild, Goal.Ready, Plan.exactly, Constant.ofKeyword?]

end

variable (walk) in
/-- All readers keep to a walk. -/
theorem leads (fuel : Nat) (goal : Goal α) : walk.Leads goal (goal.read fuel) :=
  Goal.read_induction (motive := fun _ _ goal reader => walk.Leads goal reader)
    (fun _ _ _ _ => trivial) (fun _ goals _ goal _ closed ready => plan goals goal closed ready)
    fuel goal

end Reader.Walk

end OffsideScript
