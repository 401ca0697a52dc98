import OffsideScript.Proofs.Grammar.Lookahead

namespace OffsideScript

/-- The cursor in front of the tokens that come before another cursor. -/
def Cursor.before (next : Cursor) (first : NodeId) (tokens : List Token) : Cursor :=
  { next with rest := tokens ++ next.rest, nextNode := first }

namespace Cursor

/-- What stands before two phrases is what stands before the first, which is before the second. -/
theorem before_append (next : Cursor) (first : NodeId) (tokens : List Token) (middle : NodeId)
    (more : List Token) :
    next.before first (tokens ++ more) = (next.before middle more).before first tokens := by
  simp [before]

/-- No tokens before a cursor is that cursor. -/
theorem before_nil {next : Cursor} {first : NodeId} (node : next.nextNode = first) :
    next.before first [] = next := by
  subst node
  rfl

end Cursor

namespace Level

/-- The levels whose phrases are chains. -/
def Repeats : Level → Prop
  | assignment | conditional | power | sign | atom => False
  | _ => True

/-- An atom is not a chain. -/
theorem Repeats.ne_atom {level : Level} (repeats : level.Repeats) : level ≠ .atom := by
  rintro rfl
  exact repeats

/-- A level that joins its operands reads them in a chain. -/
theorem Joins.repeats {level : Level} {kind : Token.Kind} {joiner : Joiner}
    (joins : level.Joins kind joiner) : level.Repeats := by
  cases joins <;> trivial

end Level

namespace Reader

section Before

variable {next : Cursor} {first : NodeId} {token : Token} {tokens : List Token}
  {kind : Token.Kind}

/-- The cursor in front of a token sees that token. -/
theorem current_before : current (next.before first (token :: tokens)) =
    .ok token (next.before first (token :: tokens)) := rfl

/-- The cursor in front of a token steps over it. -/
theorem advance_before : advance (next.before first (token :: tokens)) =
    .ok token (next.before first tokens) := rfl

/-- A token of the expected kind is found. -/
theorem check_before (same : token.kind = kind) :
    check kind (next.before first (token :: tokens)) =
      .ok true (next.before first (token :: tokens)) := by
  rw [check_eq]
  exact congrArg (EStateM.Result.ok · _) (beq_iff_eq.mpr same)

/-- A token of another kind is not found. -/
theorem check_before_ne (other : token.kind ≠ kind) :
    check kind (next.before first (token :: tokens)) =
      .ok false (next.before first (token :: tokens)) := by
  rw [check_eq]
  exact congrArg (EStateM.Result.ok · _) (beq_eq_false_iff_ne.mpr other)

/-- A token of the expected kind is stepped over. -/
theorem accept_before (same : token.kind = kind) :
    accept kind (next.before first (token :: tokens)) = .ok true (next.before first tokens) :=
  (accept_eq kind _).trans (if_pos same)

/-- A token of another kind is left where it is. -/
theorem accept_before_ne (other : token.kind ≠ kind) :
    accept kind (next.before first (token :: tokens)) =
      .ok false (next.before first (token :: tokens)) :=
  accept_of_ne other

/-- A token that is required and there is given back. -/
theorem expect_before {reason : GrammarError.Reason} (same : token.kind = kind) :
    expect kind reason (next.before first (token :: tokens)) =
      .ok token (next.before first tokens) :=
  (expect_eq kind reason _).trans (if_pos same)

/-- A token that carries a literal becomes a constant. -/
theorem literal_before {value : Literal} (carries : token.literal = some value) :
    literal (next.before first (token :: tokens)) =
      .ok (.constant (.ofLiteral value)) (next.before first tokens) := by
  have here : (next.before first (token :: tokens)).current.literal = some value := carries
  rw [literal_eq, here]
  rfl

/-- A line is ended by its newline. -/
theorem endLine_before {context : LineContext} (same : token.kind = .newline) :
    endLine context (next.before first (token :: tokens)) = .ok () (next.before first tokens) :=
  (endLine_eq context _).trans (if_pos same)

end Before

/-- Reads on after the first operand of a chain. -/
def following (fuel : Nat) (level : Level) (left : Expression) : Reader Expression :=
  match level with
  | .application => suffixes fuel left
  | level => joined fuel level left

/-- A level that is a chain reads its first operand one level tighter. -/
theorem expression_of_repeats {level : Level} (repeats : level.Repeats) (fuel : Nat) :
    expression (fuel + 1) level = expression fuel level.tighter >>= following fuel level := by
  rw [expression.eq_def]
  cases level with
  | assignment | conditional | power | sign | atom => exact repeats.elim
  | _ => rfl

/-- Except for calls and indices, a chain goes on with operators. -/
theorem following_eq_joined {level : Level} (binary : level ≠ .application) (fuel : Nat)
    (left : Expression) : following fuel level left = joined fuel level left := by
  cases level with
  | application => exact absurd rfl binary
  | _ => rfl

/-- A chain ends before a token that does not continue it. -/
theorem following_of_stops {level : Level} {next : Cursor}
    (stops : level.Stops next.current.kind) {fuel : Nat} (positive : 1 ≤ fuel)
    (left : Expression) : following fuel level left next = .ok left next := by
  obtain ⟨fuel, rfl⟩ : ∃ less, fuel = less + 1 := ⟨fuel - 1, by omega⟩
  by_cases application : level = .application
  · subst application
    change suffixes (fuel + 1) left next = _
    rw [suffixes, bind_of_ok (current_eq next)]
    cases kind : next.current.kind with
    | leftParen => exact absurd kind (stops.ne rfl (by decide))
    | leftBracket => exact absurd kind (stops.ne rfl (by decide))
    | _ => rfl
  · rw [following_eq_joined application, joined, bind_of_ok (current_eq next), stops.joiner?]
    rfl

end Reader

namespace Level

/-- The reader of a level passes the tokens and gives the tree. -/
def Reads (level : Level) (first : NodeId) (tokens : List Token) (tree : Expression)
    (last : NodeId) : Prop :=
  ∀ next fuel, next.nextNode = last → level.Stops next.current.kind →
    20 * tokens.length + level.rank ≤ fuel →
      Reader.expression fuel level (next.before first tokens) = .ok tree next

/-- The reader of a level passes the tokens and reads on with the tree as its first operand. -/
def Chains (level : Level) (first : NodeId) (tokens : List Token) (tree : Expression)
    (last : NodeId) : Prop :=
  ∀ next bound result, next.nextNode = last → level.tighter.Stops next.current.kind → 1 ≤ bound →
    (∀ fuel, bound ≤ fuel → Reader.following fuel level tree next = result) →
      ∀ fuel, bound + 20 * tokens.length + level.tighter.rank ≤ fuel →
        Reader.expression fuel level (next.before first tokens) = result

variable {level : Level} {first middle last : NodeId} {tokens left right : List Token}
  {tree leftTree rightTree : Expression}

/-- A chain is read by the reader of its level. -/
theorem Chains.reads (chains : level.Chains first tokens tree last) (repeats : level.Repeats) :
    level.Reads first tokens tree last := by
  intro next fuel node stops enough
  have lower := rank_tighter repeats.ne_atom
  have ends : ∀ fuel, 1 ≤ fuel → Reader.following fuel level tree next = .ok tree next :=
    fun fuel positive => Reader.following_of_stops stops positive tree
  exact chains next 1 _ node stops.tighter (Nat.le_refl 1) ends fuel (by omega)

/-- A single operand is a chain. -/
theorem Reads.chains (reads : level.tighter.Reads first tokens tree last)
    (repeats : level.Repeats) : level.Chains first tokens tree last := by
  intro next bound result node stops positive continues fuel enough
  have low := level.tighter.rank_pos
  obtain ⟨fuel, rfl⟩ : ∃ less, fuel = less + 1 := ⟨fuel - 1, by omega⟩
  rw [Reader.expression_of_repeats repeats, bind_of_ok (reads next fuel node stops (by omega))]
  exact continues fuel (by omega)

/-- A chain goes on with an operator of its level and another operand. The left operand reads on with the
operator in front of it, so the operator and the right operand become part of what comes after the left one.
-/
theorem Chains.join {operator : Token} {joiner : Joiner}
    (before : level.Chains first left leftTree middle) (joins : level.Joins operator.kind joiner)
    (after : level.tighter.Reads middle right rightTree last) :
    level.Chains first (left ++ operator :: right) (joiner.join operator leftTree rightTree)
      last := by
  intro next bound result node stops positive continues fuel enough
  have low := level.tighter.rank_le
  have lower := rank_tighter joins.repeats.ne_atom
  rw [List.length_append, List.length_cons] at enough
  rw [Cursor.before_append next first left middle]
  refine before (next.before middle (operator :: right))
    (bound + 20 * right.length + level.tighter.rank + 1) result rfl
    (stops_of_some joins.continued (by omega)) (by omega) ?_ fuel (by omega)
  intro fuel enough
  obtain ⟨fuel, rfl⟩ : ∃ less, fuel = less + 1 := ⟨fuel - 1, by omega⟩
  have rest := continues fuel (by omega)
  have binary : level ≠ .application := by
    rintro rfl
    cases joins
  rw [Reader.following_eq_joined binary] at rest ⊢
  rw [Reader.joined, bind_of_ok Reader.current_before, joins.joiner?]
  dsimp only
  rw [bind_of_ok Reader.advance_before,
    bind_of_ok (after next fuel node stops (by omega))]
  exact rest

end Level

/-- The reader of a phrase passes the tokens and gives the tree of the phrase, if what follows does not
continue it. -/
def Phrase.Reads (first : NodeId) (tokens : List Token) (last : NodeId) : Phrase → Prop
  | expression level tree =>
      level.Reads first tokens tree last ∧ (level.Repeats → level.Chains first tokens tree last)
  | items trees => ∀ next fuel, next.nextNode = last → next.current.kind.continued? = none →
      20 * tokens.length + 14 ≤ fuel →
        Reader.items fuel (next.before first tokens) = .ok trees next
  | list trees => ∀ closing next fuel, next.nextNode = last → next.current.kind = closing →
      closing ∈ [.rightParen, .rightBracket] → 20 * tokens.length + 15 ≤ fuel →
        Reader.list fuel closing (next.before first tokens) = .ok trees next
  | pairs trees => ∀ next fuel, next.nextNode = last → next.current.kind.continued? = none →
      20 * tokens.length + 14 ≤ fuel →
        Reader.pairs fuel (next.before first tokens) = .ok trees next
  | entries trees => ∀ next fuel, next.nextNode = last → next.current.kind = .rightBrace →
      20 * tokens.length + 14 ≤ fuel →
        (if (next.before first tokens).current.kind == .rightBrace then pure []
          else Reader.pairs fuel) (next.before first tokens) = .ok trees next
  | statement tree => ∀ next fuel, next.nextNode = last → next.finish.kind = .endOfFile →
      next.current.kind ∉ [.elifWord, .elseWord] → 20 * tokens.length + 15 ≤ fuel →
        Reader.statement fuel (next.before first tokens) = .ok tree next
  | block trees => ∀ context next fuel, next.nextNode = last → next.finish.kind = .endOfFile →
      20 * tokens.length + 1 ≤ fuel →
        Reader.block fuel context (next.before first tokens) = .ok trees next
  | branches trees => ∀ next fuel, next.nextNode = last → next.finish.kind = .endOfFile →
      next.current.kind ∉ [.elifWord, .elseWord] → 20 * tokens.length + 1 ≤ fuel →
        Reader.branches fuel (next.before first tokens) = .ok trees next
  | statements trees => ∀ nested next fuel, next.nextNode = last →
      next.finish.kind = .endOfFile →
      next.rest = [] ∨ nested = true ∧ next.current.kind = .dedent →
      20 * tokens.length + 17 ≤ fuel →
        Reader.statements fuel nested (next.before first tokens) = .ok trees next

namespace Level

variable {first second third last : NodeId} {object position value : List Token}
  {opening closing : Token} {objectTree positionTree tree : Expression}

/-- A chain of calls goes on with a list of arguments. -/
theorem Chains.call {arguments : List Token} {trees : List Expression}
    (called : application.Chains first object tree second) (opens : opening.kind = .leftParen)
    (passed : (Phrase.list trees).Reads second arguments last)
    (closes : closing.kind = .rightParen) :
    application.Chains first (object ++ opening :: (arguments ++ [closing]))
      (.call tree closing trees) last := by
  intro next bound result node stops positive continues fuel enough
  simp only [List.length_append, List.length_cons, List.length_nil] at enough
  rw [Cursor.before_append next first object second]
  refine called (next.before second (opening :: (arguments ++ [closing])))
    (bound + 20 * arguments.length + 16) result rfl (stops_of_kind opens (by decide)) (by omega) ?_
    fuel (by omega)
  intro fuel enough
  obtain ⟨fuel, rfl⟩ : ∃ less, fuel = less + 1 := ⟨fuel - 1, by omega⟩
  have inner := passed .rightParen (next.before last [closing]) fuel rfl closes (by decide)
    (by omega)
  change Reader.suffixes (fuel + 1) tree _ = _
  rw [Reader.suffixes, bind_of_ok Reader.current_before, opens]
  dsimp only
  rw [bind_of_ok Reader.advance_before,
    Cursor.before_append next second arguments last, bind_of_ok inner,
    bind_of_ok (Reader.expect_before closes), Cursor.before_nil node]
  exact continues fuel (by omega)

/-- A chain of calls goes on with an index. -/
theorem Chains.index (indexed : application.Chains first object objectTree second)
    (opens : opening.kind = .leftBracket)
    (inside : sequence.Reads second position positionTree last)
    (closes : closing.kind = .rightBracket) :
    application.Chains first (object ++ opening :: (position ++ [closing]))
      (.index objectTree opening positionTree) last := by
  intro next bound result node stops positive continues fuel enough
  simp only [List.length_append, List.length_cons, List.length_nil] at enough
  rw [Cursor.before_append next first object second]
  refine indexed (next.before second (opening :: (position ++ [closing])))
    (bound + 20 * position.length + 15) result rfl (stops_of_kind opens (by decide)) (by omega) ?_
    fuel (by omega)
  intro fuel enough
  obtain ⟨fuel, rfl⟩ : ∃ less, fuel = less + 1 := ⟨fuel - 1, by omega⟩
  have inner := inside (next.before last [closing]) fuel rfl (stops_of_kind closes (by decide))
    (by simp only [rank]; omega)
  change Reader.suffixes (fuel + 1) objectTree _ = _
  rw [Reader.suffixes, bind_of_ok Reader.current_before, opens]
  dsimp only
  rw [bind_of_ok Reader.advance_before,
    Cursor.before_append next second position last, bind_of_ok inner,
    bind_of_ok (Reader.expect_before closes), Cursor.before_nil node]
  exact continues fuel (by omega)

/-- An expression of a level is one of the next looser level. -/
theorem Reads.loosen {level : Level} {tokens : List Token} (looser : level ≠ .atom)
    (opens : level.tighter.Opens tokens) (reads : level.tighter.Reads first tokens tree last) :
    level.Reads first tokens tree last := by
  intro next fuel node stops enough
  have lower := rank_tighter looser
  have low := level.tighter.rank_pos
  obtain ⟨fuel, rfl⟩ : ∃ less, fuel = less + 1 := ⟨fuel - 1, by omega⟩
  have read := reads next fuel node stops.tighter (by omega)
  dsimp only [tighter] at read
  cases level with
  | assignment =>
      rw [Reader.expression, bind_of_ok read, bind_of_ok (Reader.check_eq _ _)]
      rw [if_neg (fun equal => stops.ne rfl (by decide) (beq_iff_eq.mp equal))]
      rfl
  | conditional =>
      rw [Reader.expression, bind_of_ok read,
        bind_of_ok (Reader.accept_of_ne (stops.ne rfl (by decide)))]
      rfl
  | power =>
      rw [Reader.expression, bind_of_ok read, bind_of_ok (Reader.check_eq _ _)]
      rw [if_neg (fun equal => stops.ne rfl (by decide) (beq_iff_eq.mp equal))]
      rfl
  | sign =>
      obtain ⟨token, rest, rfl, opens⟩ := opens
      rw [Reader.expression, bind_of_ok Reader.current_before,
        opens.unsigned]
      exact read
  | atom => exact absurd rfl looser
  | _ => exact (reads.chains trivial).reads trivial next (fuel + 1) node stops enough

/-- What is read at a tight level is read at every looser one. -/
theorem Reads.loosenTo {low high : Level} {tokens : List Token} (looser : low.rank ≤ high.rank)
    (opens : low.Opens tokens) (reads : low.Reads first tokens tree last) :
    high.Reads first tokens tree last := by
  have loosened : high.Opens tokens ∧ high.Reads first tokens tree last := by
    refine loosen_induction (motive := fun level =>
      level.Opens tokens ∧ level.Reads first tokens tree last) ⟨opens, reads⟩ ?_ high looser
    rintro level loose ⟨opens, reads⟩
    have lower := rank_tighter loose
    exact ⟨opens.mono (by omega), reads.loosen loose opens⟩
  exact loosened.2

/-- A target, an equals sign and a value are read as an assignment when the target can be assigned. -/
theorem Reads.assigned {target : List Token} {equals : Token} {targetTree valueTree : Expression}
    (assignable : conditional.Reads first target targetTree second)
    (assigns : equals.kind = .equal) (assigned : assignment.Reads second value valueTree last)
    (made : ∀ cursor, Reader.assign targetTree equals valueTree cursor = .ok tree cursor) :
    assignment.Reads first (target ++ equals :: value) tree last := by
  intro next fuel node stops enough
  simp only [List.length_append, List.length_cons, rank] at enough
  obtain ⟨fuel, rfl⟩ : ∃ less, fuel = less + 1 := ⟨fuel - 1, by omega⟩
  have left := assignable (next.before second (equals :: value)) fuel rfl
    (stops_of_kind assigns (by decide)) (by simp only [rank]; omega)
  have right := assigned next fuel node stops (by simp only [rank]; omega)
  rw [Reader.expression, Cursor.before_append next first target second, bind_of_ok left,
    bind_of_ok (Reader.check_before assigns), if_pos rfl, bind_of_ok Reader.advance_before,
    bind_of_ok right]
  exact made next

/-- An assignment to an index is read. -/
theorem Chains.setIndex {equals : Token} (indexed : application.Chains first object objectTree second)
    (starts : application.Opens object) (opens : opening.kind = .leftBracket)
    (inside : sequence.Reads second position positionTree third)
    (closes : closing.kind = .rightBracket) (assigns : equals.kind = .equal)
    (assigned : assignment.Reads third value tree last) :
    assignment.Reads first (object ++ opening :: (position ++ closing :: equals :: value))
      (.setIndex objectTree opening positionTree tree) last := by
  have target := (indexed.index opens inside closes).reads trivial
  have assignable : conditional.Reads _ _ _ _ := target.loosenTo (by decide) (starts.append _)
  have whole := assignable.assigned assigns assigned (fun _ => rfl)
  simpa using whole

/-- A condition with its two choices is read. -/
theorem Reads.conditional {condition whenTrue whenFalse : List Token} {question colon : Token}
    {conditionTree trueTree falseTree : Expression}
    (decides : disjunction.Reads first condition conditionTree second)
    (asks : question.kind = .question)
    (holds : Level.conditional.Reads second whenTrue trueTree third)
    (separates : colon.kind = .colon)
    (fails : Level.conditional.Reads third whenFalse falseTree last) :
    Level.conditional.Reads first (condition ++ question :: (whenTrue ++ colon :: whenFalse))
      (.conditional conditionTree trueTree falseTree) last := by
  intro next fuel node stops enough
  simp only [List.length_append, List.length_cons, rank] at enough
  obtain ⟨fuel, rfl⟩ : ∃ less, fuel = less + 1 := ⟨fuel - 1, by omega⟩
  have tested := decides (next.before second (question :: (whenTrue ++ colon :: whenFalse))) fuel
    rfl (stops_of_kind asks (by decide)) (by simp only [rank]; omega)
  have taken := holds (next.before third (colon :: whenFalse)) fuel rfl
    (stops_of_kind separates (by decide)) (by simp only [rank]; omega)
  have refused := fails next fuel node stops (by simp only [rank]; omega)
  rw [Reader.expression, Cursor.before_append next first condition second, bind_of_ok tested,
    bind_of_ok (Reader.accept_before asks), if_pos rfl,
    Cursor.before_append next second whenTrue third, bind_of_ok taken,
    bind_of_ok (Reader.expect_before separates), bind_of_ok refused]
  rfl

/-- A power is read with its exponent on the right. -/
theorem Reads.power {base exponent : List Token} {caret : Token}
    {baseTree exponentTree : Expression} (lower : sign.Reads first base baseTree second)
    (raises : caret.kind = .caret) (upper : Level.power.Reads second exponent exponentTree last) :
    Level.power.Reads first (base ++ caret :: exponent)
      (.binary .power caret baseTree exponentTree) last := by
  intro next fuel node stops enough
  simp only [List.length_append, List.length_cons, rank] at enough
  obtain ⟨fuel, rfl⟩ : ∃ less, fuel = less + 1 := ⟨fuel - 1, by omega⟩
  have below := lower (next.before second (caret :: exponent)) fuel rfl
    (stops_of_kind raises (by decide)) (by simp only [rank]; omega)
  have above := upper next fuel node stops (by simp only [rank]; omega)
  rw [Reader.expression, Cursor.before_append next first base second, bind_of_ok below,
    bind_of_ok (Reader.check_before raises), if_pos rfl,
    bind_of_ok Reader.advance_before, bind_of_ok above]
  rfl

/-- A unary operator is read with its operand. -/
theorem Reads.unary {operator : Token} {operand : List Token} {sense : UnaryOperator}
    (found : UnaryOperator.ofKind? operator.kind = some sense)
    (inner : sign.Reads first operand tree last) :
    sign.Reads first (operator :: operand) (.unary sense operator tree) last := by
  intro next fuel node stops enough
  simp only [List.length_cons, rank] at enough
  obtain ⟨fuel, rfl⟩ : ∃ less, fuel = less + 1 := ⟨fuel - 1, by omega⟩
  have read := inner next fuel node stops (by simp only [rank]; omega)
  rw [Reader.expression, bind_of_ok Reader.current_before, found]
  dsimp only
  rw [bind_of_ok Reader.advance_before, bind_of_ok read]
  rfl

/-- What the reader of atoms reads is read at the level of atoms. -/
theorem Reads.ofAtom {tokens : List Token}
    (read : ∀ next fuel, next.nextNode = last → 20 * tokens.length ≤ fuel →
      Reader.atom (fuel + 1) (next.before first tokens) = .ok tree next) :
    atom.Reads first tokens tree last := by
  intro next fuel node stops enough
  simp only [rank] at enough
  obtain ⟨fuel, rfl⟩ : ∃ less, fuel = less + 1 + 1 := ⟨fuel - 2, by omega⟩
  rw [Reader.expression]
  exact read next fuel node (by omega)

/-- A literal is read as a constant. -/
theorem Reads.literal {token : Token} {value : Literal}
    (kind : token.kind = .number ∨ token.kind = .text) (carries : token.literal = some value) :
    atom.Reads first [token] (.constant (.ofLiteral value)) first := by
  refine .ofAtom fun next fuel node enough => ?_
  have read : Reader.literal (next.before first [token]) = _ := Reader.literal_before carries
  rw [Cursor.before_nil node] at read
  rw [Reader.atom, bind_of_ok Reader.current_before]
  rcases kind with kind | kind <;> rw [kind] <;> exact read

/-- A keyword that stands for a value is read as that value. -/
theorem Reads.keyword {token : Token} {value : Constant}
    (found : Constant.ofKeyword? token.kind = some value) :
    atom.Reads first [token] (.constant value) first := by
  refine .ofAtom fun next fuel node enough => ?_
  subst node
  rw [Reader.atom, bind_of_ok Reader.current_before]
  cases kind : token.kind with
  | trueWord | falseWord | nihlWord =>
      rw [kind] at found
      cases found
      rfl
  | _ =>
      rw [kind] at found
      cases found

/-- A name is read as a variable with a node of its own. -/
theorem Reads.name {token : Token} (named : token.kind = .identifier) :
    atom.Reads first [token] (.variable first token) (first + 1) := by
  refine .ofAtom fun next fuel node enough => ?_
  rw [Reader.atom, bind_of_ok Reader.current_before, named]
  refine (Reader.name_eq _).trans ?_
  rw [← Cursor.before_nil node]
  rfl

/-- An assignment to a name takes the node of the name. -/
theorem Reads.assign {name equals : Token} (named : name.kind = .identifier)
    (assigns : equals.kind = .equal)
    (assigned : assignment.Reads (first + 1) value tree last) :
    assignment.Reads first (name :: equals :: value) (.assign first name tree) last := by
  have opens : atom.Opens [name] := ⟨name, [], rfl, .of_atom (by rw [named]; rfl)⟩
  have target : Level.conditional.Reads first [name] (.variable first name) (first + 1) :=
    (Reads.name named).loosenTo (by decide) opens
  exact target.assigned assigns assigned (fun _ => rfl)

/-- An expression in parentheses is read as a group. -/
theorem Reads.group {inner : List Token} (opens : opening.kind = .leftParen)
    (inside : sequence.Reads first inner tree last) (closes : closing.kind = .rightParen) :
    atom.Reads first (opening :: (inner ++ [closing])) (.group tree) last := by
  refine .ofAtom fun next fuel node enough => ?_
  simp only [List.length_append, List.length_cons] at enough
  have read := inside (next.before last [closing]) fuel rfl (stops_of_kind closes (by decide))
    (by simp only [rank]; omega)
  rw [Reader.atom, bind_of_ok Reader.current_before, opens]
  dsimp only
  rw [bind_of_ok Reader.advance_before, Cursor.before_append next first inner last,
    bind_of_ok read, bind_of_ok (Reader.expect_before closes), Cursor.before_nil node]
  rfl

/-- A list in brackets is read as an array. -/
theorem Reads.array {elements : List Token} {trees : List Expression}
    (opens : opening.kind = .leftBracket) (inside : (Phrase.list trees).Reads first elements last)
    (closes : closing.kind = .rightBracket) :
    atom.Reads first (opening :: (elements ++ [closing])) (.array trees) last := by
  refine .ofAtom fun next fuel node enough => ?_
  simp only [List.length_append, List.length_cons] at enough
  have read := inside .rightBracket (next.before last [closing]) fuel rfl closes (by decide)
    (by omega)
  rw [Reader.atom, bind_of_ok Reader.current_before, opens]
  dsimp only
  rw [bind_of_ok Reader.advance_before, Cursor.before_append next first elements last,
    bind_of_ok read, bind_of_ok (Reader.expect_before closes), Cursor.before_nil node]
  rfl

/-- A list of pairs in braces is read as a map. -/
theorem Reads.map {entries : List Token} {trees : List (Expression × Expression)}
    (opens : opening.kind = .leftBrace) (inside : (Phrase.entries trees).Reads first entries last)
    (closes : closing.kind = .rightBrace) :
    atom.Reads first (opening :: (entries ++ [closing])) (.map trees) last := by
  refine .ofAtom fun next fuel node enough => ?_
  simp only [List.length_append, List.length_cons] at enough
  have read := inside (next.before last [closing]) fuel rfl closes (by omega)
  rw [Reader.atom, bind_of_ok Reader.current_before, opens]
  dsimp only
  rw [bind_of_ok Reader.advance_before, Cursor.before_append next first entries last,
    bind_of_ok (Reader.check_eq _ _), Reader.ite_bind, bind_of_ok read,
    bind_of_ok (Reader.expect_before closes), Cursor.before_nil node]
  rfl

end Level

namespace Phrase

variable {first middle last : NodeId} {tokens item rest : List Token} {tree : Expression}
  {trees : List Expression} {pairs : List (Expression × Expression)}

/-- An empty list is read from no tokens. -/
theorem Reads.noItems : (list []).Reads first [] first := by
  intro closing next fuel node closes kind enough
  obtain ⟨fuel, rfl⟩ : ∃ less, fuel = less + 1 := ⟨fuel - 1, by omega⟩
  rw [Cursor.before_nil node, Reader.list, bind_of_ok (Reader.check_eq _ _), closes,
    if_pos (beq_self_eq_true closing)]
  rfl

/-- A list that is not empty is read item by item. -/
theorem Reads.someItems (opens : Level.assignment.Opens tokens)
    (inner : (items trees).Reads first tokens last) : (list trees).Reads first tokens last := by
  intro closing next fuel node closes kind enough
  obtain ⟨token, rest, rfl, opens⟩ := opens
  obtain ⟨fuel, rfl⟩ : ∃ less, fuel = less + 1 := ⟨fuel - 1, by omega⟩
  have brackets : ∀ closing ∈ [Token.Kind.rightParen, .rightBracket],
      closing.opened? = none ∧ closing.continued? = none := by decide
  obtain ⟨closed, plain⟩ := brackets closing kind
  rw [Reader.list, bind_of_ok (Reader.check_before_ne (opens.ne closed))]
  exact inner next fuel node (closes ▸ plain) (by omega)

/-- The last item of a list is read without a comma. -/
theorem Reads.lastItem (inner : Level.assignment.Reads first item tree last) :
    (items [tree]).Reads first item last := by
  intro next fuel node plain enough
  obtain ⟨fuel, rfl⟩ : ∃ less, fuel = less + 1 := ⟨fuel - 1, by omega⟩
  have stops : Level.sequence.Stops next.current.kind := Level.stops_of_none plain
  rw [Reader.items, bind_of_ok (inner next fuel node stops.tighter (by simp only [Level.rank]; omega)),
    bind_of_ok (Reader.accept_of_ne (stops.ne rfl (by decide)))]
  rfl

/-- An item is read with the comma and the items after it. -/
theorem Reads.nextItem {comma : Token} (inner : Level.assignment.Reads first item tree middle)
    (separates : comma.kind = .comma) (others : (items trees).Reads middle rest last) :
    (items (tree :: trees)).Reads first (item ++ comma :: rest) last := by
  intro next fuel node plain enough
  simp only [List.length_append, List.length_cons] at enough
  obtain ⟨fuel, rfl⟩ : ∃ less, fuel = less + 1 := ⟨fuel - 1, by omega⟩
  have read := inner (next.before middle (comma :: rest)) fuel rfl
    (Level.stops_of_kind separates (by decide)) (by simp only [Level.rank]; omega)
  rw [Reader.items, Cursor.before_append next first item middle, bind_of_ok read,
    bind_of_ok (Reader.accept_before separates), if_pos rfl,
    bind_of_ok (others next fuel node plain (by omega))]
  rfl

/-- An empty list of pairs is read from no tokens. -/
theorem Reads.noPairs : (entries []).Reads first [] first := by
  intro next fuel node closes enough
  rw [Cursor.before_nil node, closes, if_pos (beq_self_eq_true _)]
  rfl

/-- A list of pairs that is not empty is read pair by pair. -/
theorem Reads.somePairs (opens : Level.assignment.Opens tokens)
    (inner : (Phrase.pairs pairs).Reads first tokens last) :
    (entries pairs).Reads first tokens last := by
  intro next fuel node closes enough
  obtain ⟨token, rest, rfl, opens⟩ := opens
  have other : ((next.before first (token :: rest)).current.kind == .rightBrace) = false :=
    beq_eq_false_iff_ne.mpr (opens.ne rfl)
  rw [other, if_neg Bool.false_ne_true]
  exact inner next fuel node (by rw [closes]; rfl) enough

/-- The last pair of a list is read without a comma. -/
theorem Reads.lastPair {key value : List Token} {arrow : Token} {keyTree valueTree : Expression}
    (before : Level.assignment.Reads first key keyTree middle) (points : arrow.kind = .fatArrow)
    (after : Level.assignment.Reads middle value valueTree last) :
    (Phrase.pairs [(keyTree, valueTree)]).Reads first (key ++ arrow :: value) last := by
  intro next fuel node plain enough
  simp only [List.length_append, List.length_cons] at enough
  obtain ⟨fuel, rfl⟩ : ∃ less, fuel = less + 1 := ⟨fuel - 1, by omega⟩
  have stops : Level.sequence.Stops next.current.kind := Level.stops_of_none plain
  have left := before (next.before middle (arrow :: value)) fuel rfl
    (Level.stops_of_kind points (by decide)) (by simp only [Level.rank]; omega)
  have right := after next fuel node stops.tighter (by simp only [Level.rank]; omega)
  rw [Reader.pairs, Cursor.before_append next first key middle, bind_of_ok left,
    bind_of_ok (Reader.expect_before points), bind_of_ok right,
    bind_of_ok (Reader.accept_of_ne (stops.ne rfl (by decide)))]
  rfl

/-- A pair is read with the comma and the pairs after it. -/
theorem Reads.nextPair {third : NodeId} {key value : List Token} {arrow comma : Token}
    {keyTree valueTree : Expression}
    (before : Level.assignment.Reads first key keyTree middle) (points : arrow.kind = .fatArrow)
    (after : Level.assignment.Reads middle value valueTree third)
    (separates : comma.kind = .comma) (others : (Phrase.pairs pairs).Reads third rest last) :
    (Phrase.pairs ((keyTree, valueTree) :: pairs)).Reads first
      (key ++ arrow :: (value ++ comma :: rest)) last := by
  intro next fuel node plain enough
  simp only [List.length_append, List.length_cons] at enough
  obtain ⟨fuel, rfl⟩ : ∃ less, fuel = less + 1 := ⟨fuel - 1, by omega⟩
  have left := before (next.before middle (arrow :: (value ++ comma :: rest))) fuel rfl
    (Level.stops_of_kind points (by decide)) (by simp only [Level.rank]; omega)
  have right := after (next.before third (comma :: rest)) fuel rfl
    (Level.stops_of_kind separates (by decide)) (by simp only [Level.rank]; omega)
  rw [Reader.pairs, Cursor.before_append next first key middle, bind_of_ok left,
    bind_of_ok (Reader.expect_before points), Cursor.before_append next middle value third,
    bind_of_ok right, bind_of_ok (Reader.accept_before separates), if_pos rfl,
    bind_of_ok (others next fuel node plain (by omega))]
  rfl

end Phrase

end OffsideScript
