import OffsideScript.Proofs.Grammar.Completeness.Expression
import OffsideScript.Proofs.Grammar.Soundness

namespace OffsideScript

/-- An expression up to the end of its line. -/
theorem Level.Reads.line {first last : NodeId} {value : List Token} {newline : Token}
    {tree : Expression} (inner : Level.sequence.Reads first value tree last)
    (ends : newline.kind = .newline) (context : LineContext) (made : Expression → Statement)
    {next : Cursor} {fuel : Nat} (node : next.nextNode = last)
    (enough : 20 * value.length + 14 ≤ fuel) :
    (do
      let value ← Reader.expression fuel .sequence
      Reader.endLine context
      return made value) (next.before first (value ++ [newline])) = .ok (made tree) next := by
  have read := inner (next.before last [newline]) fuel rfl (Level.stops_of_kind ends (by decide))
    enough
  rw [Cursor.before_append next first value last, bind_of_ok read,
    bind_of_ok (Reader.endLine_before ends), Cursor.before_nil node]
  rfl

/-- The reader of parameters gives the names in front of it. -/
theorem Names.reads {tokens names : List Token} (listed : Names tokens names) (first : NodeId)
    (next : Cursor) (fuel : Nat) (node : next.nextNode = first)
    (plain : next.current.kind ≠ .comma) (enough : tokens.length ≤ fuel) :
    Reader.parameters fuel (next.before first tokens) = .ok names next := by
  induction listed generalizing fuel with
  | single named =>
      obtain ⟨fuel, rfl⟩ : ∃ less, fuel = less + 1 := ⟨fuel - 1, by simp at enough; omega⟩
      rw [Reader.parameters, bind_of_ok (Reader.expect_before named), Cursor.before_nil node,
        bind_of_ok (Reader.accept_of_ne plain)]
      rfl
  | cons named separates rest ih =>
      simp only [List.length_cons] at enough
      obtain ⟨fuel, rfl⟩ : ∃ less, fuel = less + 1 := ⟨fuel - 1, by omega⟩
      rw [Reader.parameters, bind_of_ok (Reader.expect_before named),
        bind_of_ok (Reader.accept_before separates), if_pos rfl, bind_of_ok (ih fuel (by omega))]
      rfl

/-- A list of names starts with a name. -/
theorem Names.head {tokens names : List Token} (listed : Names tokens names) :
    ∃ token rest, tokens = token :: rest ∧ token.kind = .identifier := by
  cases listed with
  | single named => exact ⟨_, _, rfl, named⟩
  | cons named => exact ⟨_, _, rfl, named⟩

namespace Phrase

variable {first second third last : NodeId} {keyword name newline : Token}
  {value condition body rest tokens : List Token} {tree : Expression}
  {bodyTree : List Statement} {branchTrees : List (Expression × List Statement)}

/-- A print statement is read. -/
theorem Reads.print (starts : keyword.kind = .printWord)
    (inner : Level.sequence.Reads first value tree last) (ends : newline.kind = .newline) :
    (statement (.print keyword tree)).Reads first (keyword :: (value ++ [newline])) last := by
  intro next fuel node _ _ enough
  simp only [List.length_cons, List.length_append] at enough
  obtain ⟨fuel, rfl⟩ : ∃ less, fuel = less + 1 := ⟨fuel - 1, by omega⟩
  rw [Reader.statement, bind_of_ok Reader.current_before, starts]
  dsimp only
  rw [bind_of_ok Reader.advance_before]
  exact inner.line ends .printStatement (.print keyword) node (by omega)

/-- A declaration without a value is read. -/
theorem Reads.declare (starts : keyword.kind = .letWord) (named : name.kind = .identifier)
    (ends : newline.kind = .newline) :
    (statement (.declare name none)).Reads first [keyword, name, newline] first := by
  intro next fuel node _ _ enough
  obtain ⟨fuel, rfl⟩ : ∃ less, fuel = less + 1 := ⟨fuel - 1, by omega⟩
  have other : newline.kind ≠ .equal := by
    rw [ends]
    decide
  rw [Reader.statement, bind_of_ok Reader.current_before, starts]
  dsimp only
  rw [bind_of_ok Reader.advance_before, bind_of_ok (Reader.expect_before named),
    bind_of_ok (Reader.accept_before_ne other), if_neg Bool.false_ne_true, pure_bind,
    bind_of_ok (Reader.endLine_before ends), Cursor.before_nil node]
  rfl

/-- A declaration with a value is read. -/
theorem Reads.declareValue {equals : Token} (starts : keyword.kind = .letWord)
    (named : name.kind = .identifier) (assigns : equals.kind = .equal)
    (inner : Level.sequence.Reads first value tree last) (ends : newline.kind = .newline) :
    (statement (.declare name (some tree))).Reads first
      (keyword :: name :: equals :: (value ++ [newline])) last := by
  intro next fuel node _ _ enough
  simp only [List.length_cons, List.length_append] at enough
  obtain ⟨fuel, rfl⟩ : ∃ less, fuel = less + 1 := ⟨fuel - 1, by omega⟩
  rw [Reader.statement, bind_of_ok Reader.current_before, starts]
  dsimp only
  rw [bind_of_ok Reader.advance_before, bind_of_ok (Reader.expect_before named),
    bind_of_ok (Reader.accept_before assigns), if_pos rfl, bind_map_left]
  exact inner.line ends .letStatement (fun tree => .declare name (some tree)) node (by omega)

/-- A condition ends where its block begins. -/
theorem Opens.stops (opens : (block bodyTree).Opens body) (next : Cursor) (node : NodeId)
    (rest : List Token) :
    Level.sequence.Stops (next.before node (body ++ rest)).current.kind := by
  obtain ⟨token, others, rfl, kind⟩ := opens
  have marks : ∀ kind ∈ [Token.Kind.colon, .indent], Level.sequence.Stops kind := by decide
  exact marks token.kind kind

/-- A condition, the block under it and the branches after it. -/
theorem Reads.guarded {α : Type} (made : List (Expression × List Statement) → α)
    (context : BlockContext) (decides : Level.sequence.Reads first condition tree second)
    (opens : (block bodyTree).Opens body) (inner : (block bodyTree).Reads second body third)
    (others : (branches branchTrees).Reads third rest last) {next : Cursor} {fuel : Nat}
    (node : next.nextNode = last) (closed : next.finish.kind = .endOfFile)
    (plain : next.current.kind ∉ [.elifWord, .elseWord])
    (enough : 20 * (condition.length + (body.length + rest.length)) + 14 ≤ fuel) :
    (do
      let condition ← Reader.expression fuel .sequence
      let body ← Reader.block fuel context
      return made ((condition, body) :: (← Reader.branches fuel)))
        (next.before first (condition ++ (body ++ rest))) =
      .ok (made ((tree, bodyTree) :: branchTrees)) next := by
  have tested := decides (next.before second (body ++ rest)) fuel rfl (opens.stops next second rest)
    (by simp only [Level.rank]; omega)
  have taken := inner context (next.before third rest) fuel rfl closed (by omega)
  have further := others next fuel node closed plain (by omega)
  rw [Cursor.before_append next first condition second, bind_of_ok tested,
    Cursor.before_append next second body third, bind_of_ok taken, bind_of_ok further]
  rfl

/-- A branch is read with its other branches. -/
theorem Reads.branch (starts : keyword.kind = .ifWord)
    (decides : Level.sequence.Reads first condition tree second)
    (opens : (block bodyTree).Opens body) (inner : (block bodyTree).Reads second body third)
    (others : (branches branchTrees).Reads third rest last) :
    (statement (.branch ((tree, bodyTree) :: branchTrees))).Reads first
      (keyword :: (condition ++ (body ++ rest))) last := by
  intro next fuel node closed plain enough
  simp only [List.length_cons, List.length_append] at enough
  obtain ⟨fuel, rfl⟩ : ∃ less, fuel = less + 1 := ⟨fuel - 1, by omega⟩
  rw [Reader.statement, bind_of_ok Reader.current_before, starts]
  dsimp only
  rw [bind_of_ok Reader.advance_before]
  exact Reads.guarded Statement.branch .ifWord decides opens inner others node closed plain (by omega)

/-- A loop is read with its body. -/
theorem Reads.loop (starts : keyword.kind = .whileWord)
    (decides : Level.sequence.Reads first condition tree second)
    (opens : (block bodyTree).Opens body) (inner : (block bodyTree).Reads second body last) :
    (statement (.loop tree bodyTree)).Reads first (keyword :: (condition ++ body)) last := by
  intro next fuel node closed plain enough
  simp only [List.length_cons, List.length_append] at enough
  obtain ⟨fuel, rfl⟩ : ∃ less, fuel = less + 1 := ⟨fuel - 1, by omega⟩
  have stops := opens.stops next second []
  rw [List.append_nil] at stops
  have tested := decides (next.before second body) fuel rfl stops (by simp only [Level.rank]; omega)
  have repeated := inner .whileWord next fuel node closed (by omega)
  rw [Reader.statement, bind_of_ok Reader.current_before, starts]
  dsimp only
  rw [bind_of_ok Reader.advance_before, Cursor.before_append next first condition second,
    bind_of_ok tested, bind_of_ok repeated]
  rfl

/-- A function without parameters is read. -/
theorem Reads.procedure {opening closing : Token} (starts : keyword.kind = .funcWord)
    (named : name.kind = .identifier) (opens : opening.kind = .leftParen)
    (closes : closing.kind = .rightParen) (inner : (block bodyTree).Reads first body last) :
    (statement (.function name [] bodyTree)).Reads first
      (keyword :: name :: opening :: closing :: body) last := by
  intro next fuel node closed plain enough
  simp only [List.length_cons] at enough
  obtain ⟨fuel, rfl⟩ : ∃ less, fuel = less + 1 := ⟨fuel - 1, by omega⟩
  have read := inner .functionDeclaration next fuel node closed (by omega)
  rw [Reader.statement, bind_of_ok Reader.current_before, starts]
  dsimp only
  rw [bind_of_ok Reader.advance_before, bind_of_ok (Reader.expect_before named),
    bind_of_ok (Reader.expect_before opens), bind_of_ok (Reader.check_before closes), if_pos rfl,
    pure_bind, bind_of_ok (Reader.expect_before closes), bind_of_ok read]
  rfl

/-- A function with parameters is read. -/
theorem Reads.function {opening closing : Token} {list parameters : List Token}
    (starts : keyword.kind = .funcWord) (named : name.kind = .identifier)
    (opens : opening.kind = .leftParen) (listed : Names list parameters)
    (closes : closing.kind = .rightParen) (inner : (block bodyTree).Reads first body last) :
    (statement (.function name parameters bodyTree)).Reads first
      (keyword :: name :: opening :: (list ++ closing :: body)) last := by
  intro next fuel node closed plain enough
  simp only [List.length_cons, List.length_append] at enough
  obtain ⟨fuel, rfl⟩ : ∃ less, fuel = less + 1 := ⟨fuel - 1, by omega⟩
  have separate : closing.kind ≠ .comma := by
    rw [closes]
    decide
  have names := listed.reads first (next.before first (closing :: body)) fuel rfl separate
    (by omega)
  have read := inner .functionDeclaration next fuel node closed (by omega)
  obtain ⟨token, others, rfl, identifier⟩ := listed.head
  have other : token.kind ≠ .rightParen := by
    rw [identifier]
    decide
  rw [Reader.statement, bind_of_ok Reader.current_before, starts]
  dsimp only
  rw [bind_of_ok Reader.advance_before, bind_of_ok (Reader.expect_before named),
    bind_of_ok (Reader.expect_before opens), List.cons_append,
    bind_of_ok (Reader.check_before_ne other), if_neg Bool.false_ne_true, ← List.cons_append,
    Cursor.before_append next first (token :: others) first, bind_of_ok names,
    bind_of_ok (Reader.expect_before closes), bind_of_ok read]
  rfl

/-- A return without a value is read. -/
theorem Reads.ret (starts : keyword.kind = .retWord) (ends : newline.kind = .newline) :
    (statement (.ret keyword none)).Reads first [keyword, newline] first := by
  intro next fuel node _ _ enough
  obtain ⟨fuel, rfl⟩ : ∃ less, fuel = less + 1 := ⟨fuel - 1, by omega⟩
  rw [Reader.statement, bind_of_ok Reader.current_before, starts]
  dsimp only
  rw [bind_of_ok Reader.advance_before, bind_of_ok (Reader.check_before ends), if_pos rfl,
    pure_bind, bind_of_ok (Reader.endLine_before ends), Cursor.before_nil node]
  rfl

/-- A return with a value is read. -/
theorem Reads.retValue (starts : keyword.kind = .retWord)
    (opens : Level.sequence.Opens value)
    (inner : Level.sequence.Reads first value tree last) (ends : newline.kind = .newline) :
    (statement (.ret keyword (some tree))).Reads first (keyword :: (value ++ [newline])) last := by
  intro next fuel node _ _ enough
  simp only [List.length_cons, List.length_append] at enough
  obtain ⟨fuel, rfl⟩ : ∃ less, fuel = less + 1 := ⟨fuel - 1, by omega⟩
  have line := inner.line ends .retStatement (fun tree => .ret keyword (some tree)) node
    (show 20 * value.length + 14 ≤ fuel by omega)
  obtain ⟨token, rest, rfl, opens⟩ := opens
  rw [Reader.statement, bind_of_ok Reader.current_before, starts]
  dsimp only
  rw [bind_of_ok Reader.advance_before, List.cons_append,
    bind_of_ok (Reader.check_before_ne (opens.ne rfl)), if_neg Bool.false_ne_true, bind_map_left]
  exact line

/-- A break is read. -/
theorem Reads.breakLoop (starts : keyword.kind = .breakWord) (ends : newline.kind = .newline) :
    (statement (.breakLoop keyword)).Reads first [keyword, newline] first := by
  intro next fuel node _ _ enough
  obtain ⟨fuel, rfl⟩ : ∃ less, fuel = less + 1 := ⟨fuel - 1, by omega⟩
  rw [Reader.statement, bind_of_ok Reader.current_before, starts]
  dsimp only
  rw [bind_of_ok Reader.advance_before, bind_of_ok (Reader.endLine_before ends),
    Cursor.before_nil node]
  rfl

/-- A continue is read. -/
theorem Reads.continueLoop (starts : keyword.kind = .continueWord)
    (ends : newline.kind = .newline) :
    (statement (.continueLoop keyword)).Reads first [keyword, newline] first := by
  intro next fuel node _ _ enough
  obtain ⟨fuel, rfl⟩ : ∃ less, fuel = less + 1 := ⟨fuel - 1, by omega⟩
  rw [Reader.statement, bind_of_ok Reader.current_before, starts]
  dsimp only
  rw [bind_of_ok Reader.advance_before, bind_of_ok (Reader.endLine_before ends),
    Cursor.before_nil node]
  rfl

/-- An expression on a line of its own is read as a statement. -/
theorem Reads.evaluate (opens : Level.sequence.Opens value)
    (inner : Level.sequence.Reads first value tree last) (ends : newline.kind = .newline) :
    (statement (.evaluate tree)).Reads first (value ++ [newline]) last := by
  intro next fuel node _ _ enough
  simp only [List.length_append] at enough
  obtain ⟨fuel, rfl⟩ : ∃ less, fuel = less + 1 := ⟨fuel - 1, by omega⟩
  have line := inner.line ends .expressionStatement .evaluate node
    (show 20 * value.length + 14 ≤ fuel by omega)
  obtain ⟨token, rest, rfl, opens⟩ := opens
  rw [Reader.statement, List.cons_append, bind_of_ok Reader.current_before]
  cases kind : token.kind with
  | printWord | letWord | ifWord | whileWord | funcWord | retWord | breakWord | continueWord =>
      exact absurd kind (opens.ne rfl)
  | _ => exact line

/-- A branch may have no others after it. -/
theorem Reads.noBranch : (branches []).Reads first [] first := by
  intro next fuel node _ plain enough
  obtain ⟨fuel, rfl⟩ : ∃ less, fuel = less + 1 := ⟨fuel - 1, by omega⟩
  simp only [List.mem_cons, List.not_mem_nil, or_false, not_or] at plain
  rw [Cursor.before_nil node, Reader.branches, bind_of_ok (Reader.accept_of_ne plain.1),
    if_neg Bool.false_ne_true, bind_of_ok (Reader.accept_of_ne plain.2)]
  rfl

/-- A further condition is read with the branches after it. -/
theorem Reads.elif (starts : keyword.kind = .elifWord)
    (decides : Level.sequence.Reads first condition tree second)
    (opens : (block bodyTree).Opens body) (inner : (block bodyTree).Reads second body third)
    (others : (branches branchTrees).Reads third rest last) :
    (branches ((tree, bodyTree) :: branchTrees)).Reads first
      (keyword :: (condition ++ (body ++ rest))) last := by
  intro next fuel node closed plain enough
  simp only [List.length_cons, List.length_append] at enough
  obtain ⟨fuel, rfl⟩ : ∃ less, fuel = less + 1 := ⟨fuel - 1, by omega⟩
  rw [Reader.branches, bind_of_ok (Reader.accept_before starts), if_pos rfl]
  exact Reads.guarded id .elifWord decides opens inner others node closed plain (by omega)

/-- The last branch is read as one whose condition holds. -/
theorem Reads.otherwise (starts : keyword.kind = .elseWord)
    (inner : (block bodyTree).Reads first body last) :
    (branches [(.constant (.boolean true), bodyTree)]).Reads first (keyword :: body) last := by
  intro next fuel node closed plain enough
  simp only [List.length_cons] at enough
  obtain ⟨fuel, rfl⟩ : ∃ less, fuel = less + 1 := ⟨fuel - 1, by omega⟩
  have taken := inner .elseWord next fuel node closed (by omega)
  have other : keyword.kind ≠ .elifWord := by
    rw [starts]
    decide
  rw [Reader.branches, bind_of_ok (Reader.accept_before_ne other), if_neg Bool.false_ne_true,
    bind_of_ok (Reader.accept_before starts), if_pos rfl, bind_of_ok taken]
  rfl

/-- The part of a block from its indentation on. -/
theorem Reads.indented {indent dedent : Token} (context : BlockContext)
    (opens : indent.kind = .indent) (inner : (statements bodyTree).Reads first body last)
    (closes : dedent.kind = .dedent) {next : Cursor} {fuel : Nat} (node : next.nextNode = last)
    (closed : next.finish.kind = .endOfFile) (enough : 20 * body.length + 17 ≤ fuel) :
    (do
      let _ ← Reader.expect .indent (.block context)
      let body ← Reader.statements fuel true
      let _ ← Reader.expect .dedent .blockEnd
      return body) (next.before first (indent :: (body ++ [dedent]))) = .ok bodyTree next := by
  have read := inner true (next.before last [dedent]) fuel rfl closed (.inr ⟨rfl, closes⟩) enough
  rw [bind_of_ok (Reader.expect_before opens), Cursor.before_append next first body last,
    bind_of_ok read, bind_of_ok (Reader.expect_before closes), Cursor.before_nil node]
  rfl

/-- A block is read from its indent to its dedent. -/
theorem Reads.block {indent dedent : Token} (opens : indent.kind = .indent)
    (inner : (statements bodyTree).Reads first body last) (closes : dedent.kind = .dedent) :
    (Phrase.block bodyTree).Reads first (indent :: (body ++ [dedent])) last := by
  intro context next fuel node closed enough
  simp only [List.length_cons, List.length_append] at enough
  obtain ⟨fuel, rfl⟩ : ∃ less, fuel = less + 1 := ⟨fuel - 1, by omega⟩
  have other : indent.kind ≠ .colon := by
    rw [opens]
    decide
  rw [Reader.block, bind_of_ok (Reader.accept_before_ne other)]
  exact Reads.indented context opens inner closes node closed (by omega)

/-- A colon may announce a block. -/
theorem Reads.colonBlock {colon indent dedent : Token} (announces : colon.kind = .colon)
    (opens : indent.kind = .indent) (inner : (statements bodyTree).Reads first body last)
    (closes : dedent.kind = .dedent) :
    (Phrase.block bodyTree).Reads first (colon :: indent :: (body ++ [dedent])) last := by
  intro context next fuel node closed enough
  simp only [List.length_cons, List.length_append] at enough
  obtain ⟨fuel, rfl⟩ : ∃ less, fuel = less + 1 := ⟨fuel - 1, by omega⟩
  rw [Reader.block, bind_of_ok (Reader.accept_before announces)]
  exact Reads.indented context opens inner closes node closed (by omega)

/-- No statements are read from no tokens. -/
theorem Reads.noStatement : (statements []).Reads first [] first := by
  intro nested next fuel node closed ended enough
  obtain ⟨fuel, rfl⟩ : ∃ less, fuel = less + 1 := ⟨fuel - 1, by omega⟩
  rw [Cursor.before_nil node, Reader.statements, get_bind, if_pos (by simpa using ended)]
  rfl

/-- No branch comes after the statements of a block or of a program. -/
theorem Opens.plain {trees : List Statement} (opens : (statements trees).Opens rest)
    {nested : Bool} {next : Cursor} (closed : next.finish.kind = .endOfFile)
    (ended : next.rest = [] ∨ nested = true ∧ next.current.kind = .dedent) (node : NodeId) :
    (next.before node rest).current.kind ∉ [.elifWord, .elseWord] := by
  cases rest with
  | nil =>
      change next.current.kind ∉ _
      rcases ended with empty | ⟨_, dedent⟩
      · have last : next.current = next.finish := by
          unfold Cursor.current
          rw [empty]
          rfl
        rw [last, closed]
        decide
      · rw [dedent]
        decide
  | cons token others => exact fun found => opens token others rfl (List.mem_cons_of_mem _ found)

/-- A statement is read with the statements after it. -/
theorem Reads.nextStatement {read : Statement} {trees : List Statement}
    (opens : (statement read).Opens tokens) (inner : (statement read).Reads first tokens second)
    (further : (statements trees).Opens rest) (others : (statements trees).Reads second rest last) :
    (statements (read :: trees)).Reads first (tokens ++ rest) last := by
  intro nested next fuel node closed ended enough
  simp only [List.length_append] at enough
  obtain ⟨fuel, rfl⟩ : ∃ less, fuel = less + 1 + 1 := ⟨fuel - 2, by omega⟩
  have plain := further.plain closed ended second
  have one := inner (next.before second rest) fuel rfl closed plain (by omega)
  obtain ⟨token, more, rfl, starts⟩ := opens
  simp only [List.length_cons] at enough
  have all := others nested next (fuel + 1) node closed ended (by omega)
  have live : token.kind ≠ .dedent := fun dedent => starts (by simp [dedent])
  have goes : ((next.before first (token :: (more ++ rest))).rest.isEmpty ||
      (nested && (next.before first (token :: (more ++ rest))).current.kind == .dedent)) =
        false := by
    have other : (token.kind == .dedent) = false := beq_eq_false_iff_ne.mpr live
    change (false || (nested && token.kind == .dedent)) = false
    rw [other, Bool.and_false, Bool.or_false]
  rw [Reader.statements, get_bind, List.cons_append, goes, if_neg Bool.false_ne_true,
    ← List.cons_append, Cursor.before_append next first (token :: more) second,
    bind_of_ok (Reader.attempt_of_ok one)]
  dsimp only
  rw [bind_of_ok all]
  rfl

end Phrase

/-- Every phrase is read from the tokens that derive it. A left operand is read as the beginning of a longer
chain and never alone, so the levels that repeat carry their chains through the induction. -/
theorem Derives.reads {first last : NodeId} {tokens : List Token} {phrase : Phrase}
    (derives : Derives first tokens phrase last) : phrase.Reads first tokens last := by
  induction derives with
  | @tighter level _ _ _ _ looser inner ih =>
      exact ⟨ih.1.loosen looser inner.opens, fun repeats => ih.1.chains repeats⟩
  | join joins before after ihBefore ihAfter =>
      have chains := (ihBefore.2 joins.repeats).join joins ihAfter.1
      exact ⟨chains.reads joins.repeats, fun _ => chains⟩
  | assign named assigns assigned ih => exact ⟨.assign named assigns ih.1, nofun⟩
  | setIndex opens closes assigns indexed inside assigned ihObject ihPosition ihValue =>
      exact ⟨(ihObject.2 trivial).setIndex indexed.opens opens ihPosition.1 closes assigns ihValue.1,
        nofun⟩
  | conditional asks separates decides holds fails ihCondition ihTrue ihFalse =>
      exact ⟨ihCondition.1.conditional asks ihTrue.1 separates ihFalse.1, nofun⟩
  | power raises lower upper ihLower ihUpper =>
      exact ⟨ihLower.1.power raises ihUpper.1, nofun⟩
  | negate signs inner ih => exact ⟨.unary (by rw [signs]; rfl) ih.1, nofun⟩
  | not signs inner ih => exact ⟨.unary (by rw [signs]; rfl) ih.1, nofun⟩
  | call opens closes called passed ihCallee ihArguments =>
      have chains := (ihCallee.2 trivial).call opens ihArguments closes
      exact ⟨chains.reads trivial, fun _ => chains⟩
  | index opens closes indexed inside ihObject ihPosition =>
      have chains := (ihObject.2 trivial).index opens ihPosition.1 closes
      exact ⟨chains.reads trivial, fun _ => chains⟩
  | literal kind carries => exact ⟨.literal kind carries, nofun⟩
  | trueWord keyword => exact ⟨.keyword (by rw [keyword]; rfl), nofun⟩
  | falseWord keyword => exact ⟨.keyword (by rw [keyword]; rfl), nofun⟩
  | nihlWord keyword => exact ⟨.keyword (by rw [keyword]; rfl), nofun⟩
  | name named => exact ⟨.name named, nofun⟩
  | group opens closes inside ih => exact ⟨.group opens ih.1 closes, nofun⟩
  | array opens closes inside ih => exact ⟨.array opens ih closes, nofun⟩
  | map opens closes inside ih => exact ⟨.map opens ih closes, nofun⟩
  | noItems => exact .noItems
  | someItems inner ih => exact .someItems inner.opens ih
  | lastItem inner ih => exact .lastItem ih.1
  | nextItem separates inner others ih ihOthers => exact .nextItem ih.1 separates ihOthers
  | noPairs => exact .noPairs
  | somePairs inner ih => exact .somePairs inner.opens ih
  | lastPair points before after ihKey ihValue => exact .lastPair ihKey.1 points ihValue.1
  | nextPair points separates before after others ihKey ihValue ihOthers =>
      exact .nextPair ihKey.1 points ihValue.1 separates ihOthers
  | print starts ends inner ih => exact .print starts ih.1 ends
  | declare starts named ends => exact .declare starts named ends
  | declareValue starts named assigns ends inner ih =>
      exact .declareValue starts named assigns ih.1 ends
  | branch starts decides inner others ihCondition ihBody ihOthers =>
      exact .branch starts ihCondition.1 inner.opens ihBody ihOthers
  | loop starts decides inner ihCondition ihBody =>
      exact .loop starts ihCondition.1 inner.opens ihBody
  | procedure starts named opens closes inner ih => exact .procedure starts named opens closes ih
  | function starts named opens listed closes inner ih =>
      exact .function starts named opens listed closes ih
  | ret starts ends => exact .ret starts ends
  | retValue starts ends inner ih => exact .retValue starts inner.opens ih.1 ends
  | breakLoop starts ends => exact .breakLoop starts ends
  | continueLoop starts ends => exact .continueLoop starts ends
  | evaluate ends inner ih => exact .evaluate inner.opens ih.1 ends
  | block opens closes inner ih => exact .block opens ih closes
  | colonBlock announces opens closes inner ih => exact .colonBlock announces opens ih closes
  | noBranch => exact .noBranch
  | elif starts decides inner others ihCondition ihBody ihOthers =>
      exact .elif starts ihCondition.1 inner.opens ihBody ihOthers
  | otherwise starts inner ih => exact .otherwise starts ih
  | noStatement => exact .noStatement
  | nextStatement inner others ih ihOthers =>
      exact .nextStatement inner.opens ih others.opens ihOthers

namespace Program

/-- A program that is derived from the tokens before the end of file is read, and without an error. -/
theorem ofTokens_of_derives {tokens : List Token} {program : Program} {last : NodeId}
    (derives : Derives 0 (tokens.takeWhile (·.kind ≠ .endOfFile)) (.statements program) last) :
    Program.ofTokens tokens = (program, []) := by
  have start : Cursor.before ⟨[], (Cursor.ofTokens tokens).finish, last, []⟩ 0
      (tokens.takeWhile (·.kind ≠ .endOfFile)) = .ofTokens tokens := by
    simp [Cursor.before, Cursor.ofTokens]
  have shorter : (tokens.takeWhile (·.kind ≠ .endOfFile)).length ≤ tokens.length :=
    (List.takeWhile_sublist _).length_le
  have ran := derives.reads false ⟨[], (Cursor.ofTokens tokens).finish, last, []⟩
    (Reader.enoughFuel tokens) rfl (Cursor.ofTokens_closed tokens) (.inl rfl)
    (by unfold Reader.enoughFuel; omega)
  rw [start] at ran
  unfold Program.ofTokens
  rw [ran]
  rfl

/-- A token list is read without errors exactly if the tokens before the end of the file derive
statements, and the program that is read is the only one that they derive. -/
theorem ofTokens_eq_iff_derives (tokens : List Token) :
    ((Program.ofTokens tokens).2 = [] ↔ ∃ program last,
      Derives 0 (tokens.takeWhile (·.kind ≠ .endOfFile)) (.statements program) last) ∧
    ∀ program, Program.ofTokens tokens = (program, []) ↔ ∃ last,
      Derives 0 (tokens.takeWhile (·.kind ≠ .endOfFile)) (.statements program) last := by
  have read : ∀ program, Program.ofTokens tokens = (program, []) ↔ ∃ last,
      Derives 0 (tokens.takeWhile (·.kind ≠ .endOfFile)) (.statements program) last := by
    intro program
    constructor
    · intro same
      have derives := @derives_of_ofTokens tokens (by rw [same])
      rwa [same] at derives
    · rintro ⟨last, derives⟩
      exact ofTokens_of_derives derives
  refine ⟨⟨fun clean => ⟨_, derives_of_ofTokens clean⟩, ?_⟩, read⟩
  rintro ⟨program, last, derives⟩
  rw [ofTokens_of_derives derives]

end Program

end OffsideScript
