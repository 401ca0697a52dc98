import OffsideScript.Compile
import OffsideScript.Proofs.Grammar.Harvest
import OffsideScript.Proofs.Number.Sign
import OffsideScript.Proofs.Token.Covering
import OffsideScript.Proofs.Token.Seam
import OffsideScript.Proofs.Tree.Parts

namespace OffsideScript

/-- The token that a unary operator is written as. -/
def UnaryOperator.kind : UnaryOperator → Token.Kind
  | negate => .minus
  | not => .bang

/-- The token that a binary operator is written as. -/
def BinaryOperator.kind : BinaryOperator → Token.Kind
  | sequence => .comma
  | concat => .plusPlus
  | add => .plus
  | subtract => .minus
  | multiply => .star
  | divide => .slash
  | remainder => .percent
  | power => .caret
  | equal => .equalEqual
  | notEqual => .bangEqual
  | less => .less
  | lessEqual => .lessEqual
  | greater => .greater
  | greaterEqual => .greaterEqual

/-- The token that a logical operator is written as. -/
def LogicalOperator.kind : LogicalOperator → Token.Kind
  | and => .andWord
  | or => .orWord
  | xor => .xorWord

/-- An expression or a statement. -/
inductive Tree where
  | expression (tree : Expression)
  | statement (tree : Statement)

/-- The token is spelled as a token of the kind. -/
@[mk_iff is_iff]
structure Token.Is (token : Token) (kind : Token.Kind) : Prop where
  kind_eq : token.kind = kind
  spelled : token.Spelled

/-- What the grammar asks of a constant: a number has no sign, and a text has no quotation mark. -/
def Constant.IsRead : Constant → Prop
  | .nihl | .boolean _ => True
  | .number value => Number.isNegative value = false
  | .text value => '\'' ∉ value.toList

/-- What the grammar asks of the tokens of an expression, apart from its parts. -/
def Expression.IsRead : Expression → Prop
  | .constant value => value.IsRead
  | .unary operator token _ => token.Is operator.kind
  | .binary operator token _ _ => token.Is operator.kind
  | .logical operator token _ _ => token.Is operator.kind
  | .variable _ name | .assign _ name _ => name.Is .identifier
  | .call _ closing _ => closing.Is .rightParen
  | .index _ bracket _ | .setIndex _ bracket _ _ => bracket.Is .leftBracket
  | .group _ | .conditional _ _ _ | .array _ | .map _ => True

/-- What the grammar asks of the tokens of a statement, apart from its parts. -/
def Statement.IsRead : Statement → Prop
  | .print keyword _ => keyword.Is .printWord
  | .declare name _ => name.Is .identifier
  | .function name parameters _ =>
      name.Is .identifier ∧ ∀ parameter ∈ parameters, parameter.Is .identifier
  | .ret keyword _ => keyword.Is .retWord
  | .breakLoop keyword => keyword.Is .breakWord
  | .continueLoop keyword => keyword.Is .continueWord
  | .evaluate _ | .branch _ | .loop _ _ => True

namespace Tree

/-- Trees are inside of themselves and of what has them as parts. -/
inductive Has : Tree → Tree → Prop where
  | refl (tree : Tree) : Has tree tree
  | part {outer part : Expression} {inner : Tree} (member : part ∈ outer.children)
      (deeper : Has (expression part) inner) : Has (expression outer) inner
  | operand {outer : Statement} {part : Expression} {inner : Tree} (member : part ∈ outer.operands)
      (deeper : Has (expression part) inner) : Has (statement outer) inner
  | body {outer part : Statement} {inner : Tree} (member : part ∈ outer.children)
      (deeper : Has (statement part) inner) : Has (statement outer) inner

theorem Has.trans {outer middle inner : Tree} (first : outer.Has middle) (second : middle.Has inner) :
    outer.Has inner := by
  induction first with
  | refl => exact second
  | part member _ ih => exact .part member (ih second)
  | operand member _ ih => exact .operand member (ih second)
  | body member _ ih => exact .body member (ih second)

/-- Something holds of a tree and of all trees inside of it. -/
def All (holds : Tree → Prop) (tree : Tree) : Prop :=
  ∀ inner, tree.Has inner → holds inner

/-- What holds of an expression and of everything in its parts holds of everything in it. -/
theorem all_expression {holds : Tree → Prop} {tree : Expression} (here : holds (expression tree))
    (parts : ∀ part ∈ tree.children, (expression part).All holds) : (expression tree).All holds := by
  intro inner has
  cases has with
  | refl => exact here
  | part member deeper => exact parts _ member inner deeper

/-- What holds of everything in an expression holds of it and of everything in its parts. -/
theorem all_expression_iff {holds : Tree → Prop} (tree : Expression) :
    (expression tree).All holds ↔
      holds (expression tree) ∧ ∀ part ∈ tree.children, (expression part).All holds :=
  ⟨fun all => ⟨all _ (.refl _), fun _ member inner has => all inner (.part member has)⟩,
    fun both => all_expression both.1 both.2⟩

/-- What holds of a statement and of everything in its parts holds of everything in it. -/
theorem all_statement {holds : Tree → Prop} {tree : Statement} (here : holds (statement tree))
    (operands : ∀ part ∈ tree.operands, (expression part).All holds)
    (bodies : ∀ part ∈ tree.children, (statement part).All holds) : (statement tree).All holds := by
  intro inner has
  cases has with
  | refl => exact here
  | operand member deeper => exact operands _ member inner deeper
  | body member deeper => exact bodies _ member inner deeper

/-- What holds of everything in a statement holds of it and of everything in its parts. -/
theorem all_statement_iff {holds : Tree → Prop} (tree : Statement) :
    (statement tree).All holds ↔
      holds (statement tree) ∧ (∀ part ∈ tree.operands, (expression part).All holds) ∧
        ∀ part ∈ tree.children, (statement part).All holds :=
  ⟨fun all => ⟨all _ (.refl _), fun _ member inner has => all inner (.operand member has),
    fun _ member inner has => all inner (.body member has)⟩,
    fun both => all_statement both.1 both.2.1 both.2.2⟩

/-- What the grammar asks of one node. -/
def IsRead : Tree → Prop
  | expression tree => tree.IsRead
  | statement tree => tree.IsRead

/-- A constant has no parts. -/
theorem allRead_constant {value : Constant} (here : value.IsRead) :
    (expression (.constant value)).All IsRead :=
  all_expression here (by simp [Expression.children])

/-- A map is as it is read if its keys and values are. -/
theorem all_map {entries : List (Expression × Expression)}
    (parts : ∀ entry ∈ entries, (expression entry.1).All IsRead ∧ (expression entry.2).All IsRead) :
    (expression (.map entries)).All IsRead := by
  apply all_expression
  · trivial
  · intro part member
    obtain ⟨entry, inside, here⟩ := List.mem_flatMap.mp member
    simp only [List.mem_cons, List.not_mem_nil, or_false] at here
    rcases here with rfl | rfl
    · exact (parts entry inside).1
    · exact (parts entry inside).2

/-- A branch is as it is read if its conditions and blocks are. -/
theorem all_branch_iff {branches : List (Expression × List Statement)} :
    (statement (.branch branches)).All IsRead ↔
      ∀ branch ∈ branches, (expression branch.1).All IsRead ∧
        ∀ tree ∈ branch.2, (statement tree).All IsRead := by
  rw [all_statement_iff]
  simp only [Statement.operands, Statement.children, List.mem_map, List.mem_flatMap, IsRead, Statement.IsRead, true_and]
  constructor
  · rintro ⟨conditions, bodies⟩ branch member
    exact ⟨conditions _ ⟨branch, member, rfl⟩, fun tree inside => bodies tree ⟨branch, member, inside⟩⟩
  · intro all
    refine ⟨?_, ?_⟩
    · rintro _ ⟨branch, member, rfl⟩
      exact (all branch member).1
    · rintro tree ⟨branch, member, inside⟩
      exact (all branch member).2 tree inside

end Tree

/-- All nodes of what is read for a goal are as they are read. -/
def Goal.AllRead : {α : Type} → Goal α → α → Prop
  | _, .expression _, tree => (Tree.expression tree).All Tree.IsRead
  | _, .joined _ _, tree => (Tree.expression tree).All Tree.IsRead
  | _, .suffixes _, tree => (Tree.expression tree).All Tree.IsRead
  | _, .atom, tree => (Tree.expression tree).All Tree.IsRead
  | _, .list _, trees => ∀ tree ∈ trees, (Tree.expression tree).All Tree.IsRead
  | _, .items, trees => ∀ tree ∈ trees, (Tree.expression tree).All Tree.IsRead
  | _, .pairs, trees =>
      ∀ entry ∈ trees, (Tree.expression entry.1).All Tree.IsRead ∧
        (Tree.expression entry.2).All Tree.IsRead
  | _, .parameters, names => ∀ name ∈ names, name.Is .identifier
  | _, .statement, tree => (Tree.statement tree).All Tree.IsRead
  | _, .branches, trees =>
      ∀ branch ∈ trees, (Tree.expression branch.1).All Tree.IsRead ∧
        ∀ tree ∈ branch.2, (Tree.statement tree).All Tree.IsRead
  | _, .block _, trees => ∀ tree ∈ trees, (Tree.statement tree).All Tree.IsRead
  | _, .statements _, trees => ∀ tree ∈ trees, (Tree.statement tree).All Tree.IsRead
  | _, .attempt, read => ∀ tree ∈ read, (Tree.statement tree).All Tree.IsRead

/-- The literal of a spelled token is a constant as it is read. -/
theorem Token.Spelled.constant {token : Token} (spelled : token.Spelled) {value : Literal}
    (literal : token.kind = .number ∨ token.kind = .text) (carries : token.literal = some value) :
    (Constant.ofLiteral value).IsRead := by
  unfold Spelled at spelled
  rcases literal with number | text
  · rw [number] at spelled
    rw [spelled.2] at carries
    cases carries
    exact Number.isNegative_ofDigits _
  · rw [text] at spelled
    obtain ⟨content, plain, _, written⟩ := spelled
    rw [written] at carries
    cases carries
    change '\'' ∉ (String.ofList content).toList
    rw [String.toList_ofList]
    exact fun member => (plain _ member).1 rfl

/-- Numbers and texts are written. -/
theorem isWritten_of_literal {kind : Token.Kind} (literal : kind = .number ∨ kind = .text) :
    kind.IsWritten := by
  rcases literal with rfl | rfl <;> decide

/-- The tokens that are written out are spelled as they should be. -/
def Harvest.spelled : Harvest where
  word token := token.kind.IsWritten → token.Spelled
  number _ := True
  result := Goal.AllRead

/-- The reader finds a unary operator at its kind only. -/
theorem UnaryOperator.kind_of_ofKind? {kind : Token.Kind} {operator : UnaryOperator}
    (found : ofKind? kind = some operator) : kind = operator.kind := by
  unfold ofKind? at found
  split at found <;> cases found <;> rfl

/-- A joined expression has the token of its operator. -/
theorem Level.Joins.isRead {level : Level} {joiner : Joiner} {operator : Token}
    (joins : level.Joins operator.kind joiner) (spelled : operator.kind.IsWritten → operator.Spelled)
    (left right : Expression) : (joiner.join operator left right).IsRead := by
  generalize found : operator.kind = kind at joins
  cases joins <;> exact ⟨found, spelled (found ▸ by decide)⟩

/-- The parts of a joined expression are its two operands. -/
theorem Joiner.children_join (joiner : Joiner) (operator : Token) (left right : Expression) :
    (joiner.join operator left right).children = [left, right] := by
  cases joiner <;> rfl

/-- A keyword stands for a constant as it is read. -/
theorem Constant.isRead_of_ofKeyword? {kind : Token.Kind} {value : Constant}
    (found : ofKeyword? kind = some value) : value.IsRead := by
  unfold ofKeyword? at found
  split at found <;> cases found <;> trivial

namespace Goal

variable {α : Type}

/-- An assignment keeps the token of its target. -/
theorem assign_spelled {target value : Expression} (equals : Token)
    (before : (Tree.expression target).All Tree.IsRead) (after : (Tree.expression value).All Tree.IsRead) :
    (Plan.assign target equals value).Bears .spelled
      fun tree => (Tree.expression tree).All Tree.IsRead := by
  obtain ⟨here, parts⟩ := (Tree.all_expression_iff target).mp before
  cases target with
  | «variable» node name =>
      apply Tree.all_expression
      · exact here
      · simpa [Expression.children] using after
  | index object bracket position =>
      apply Tree.all_expression
      · exact here
      · simp only [Expression.children, List.forall_mem_cons] at parts ⊢
        exact ⟨parts.1, parts.2.1, after, parts.2.2⟩
  | _ => exact before

/-- An operator is the token that its kind asks for. -/
theorem expression_spelled (level : Level) :
    (expression level).plan.Bears .spelled (expression level).AllRead := by
  cases level with
  | assignment =>
      simp only [plan, Plan.Bears, Harvest.Given, true_and]
      exact fun target before =>
        ⟨fun _ equals _ _ value after => assign_spelled equals before after, before⟩
  | sign =>
      simp +contextual only [plan, Plan.Bears, Harvest.Given, true_and, AllRead, Harvest.spelled,
        implies_true, and_true]
      intro operator token found word operand inner
      apply Tree.all_expression
      · have kind := UnaryOperator.kind_of_ofKind? found
        exact ⟨kind, word (by rw [kind]; cases operator <;> decide)⟩
      · simpa [Expression.children] using inner
  | _ =>
      simp +contextual [plan, Plan.Bears, AllRead, Harvest.spelled, Harvest.Given,
        Tree.all_expression_iff (.conditional _ _ _), Tree.all_expression_iff (.binary _ _ _ _),
        Expression.children, Tree.IsRead, Expression.IsRead, Token.is_iff, Token.Kind.IsWritten,
        BinaryOperator.kind]

/-- A chain adds operators to what was read before. -/
theorem joined_spelled {level : Level} {left : Expression}
    (before : (Tree.expression left).All Tree.IsRead) :
    (joined level left).plan.Bears .spelled (joined level left).AllRead := by
  simp +contextual only [plan, Plan.Bears, Harvest.Given, true_and, AllRead, Harvest.spelled,
        implies_true, and_true]
  refine ⟨fun joiner token found word right after => ?_, before⟩
  apply Tree.all_expression
  · exact (Level.joins_of_joiner? found).isRead word left right
  · rw [Joiner.children_join]
    simpa using ⟨before, after⟩

/-- An atom is a constant as it is written, a name, or trees between brackets. -/
theorem atom_spelled : atom.plan.Bears .spelled atom.AllRead := by
  refine ⟨fun token value kind word carries => ?_, fun node token named word _ => ?_, ?_, ?_, ?_,
    fun value token found _ => ?_, trivial⟩
  · exact Tree.allRead_constant ((word (isWritten_of_literal kind)).constant kind carries)
  · apply Tree.all_expression
    · exact ⟨named, word (by rw [named]; decide)⟩
    · simp [Expression.children]
  · refine fun _ _ _ _ => ⟨trivial, fun tree inner => ⟨fun _ _ _ _ => ?_, trivial⟩⟩
    exact Tree.all_expression trivial (List.forall_mem_singleton.mpr inner)
  · exact fun _ _ _ _ => ⟨trivial, fun trees inner => ⟨fun _ _ _ _ => Tree.all_expression trivial inner, trivial⟩⟩
  · refine fun _ _ _ _ => ⟨⟨fun _ _ _ _ => Tree.all_expression trivial (by simp [Expression.children]), trivial⟩, trivial,
      fun trees inner => ⟨fun _ _ _ _ => Tree.all_map inner, trivial⟩⟩
  · exact Tree.allRead_constant (Constant.isRead_of_ofKeyword? found)

/-- A statement keeps its keyword or its names. -/
theorem statement_spelled : statement.plan.Bears .spelled statement.AllRead := by
  simp +contextual [plan, Plan.Bears, AllRead, Harvest.spelled, Harvest.Given, Token.is_iff,
    Token.Kind.IsWritten, Tree.all_branch_iff, Tree.all_statement_iff (.print _ _),
    Tree.all_statement_iff (.declare _ _), Tree.all_statement_iff (.loop _ _),
    Tree.all_statement_iff (.function _ _ _), Tree.all_statement_iff (.ret _ _),
    Tree.all_statement_iff (.breakLoop _), Tree.all_statement_iff (.continueLoop _),
    Tree.all_statement_iff (.evaluate _), Statement.operands, Statement.children, Tree.IsRead,
    Statement.IsRead]

/-- The plan of every goal gives trees as they are read, if it is given such trees. -/
theorem plan_spelled (goal : Goal α) (given : Harvest.spelled.Given goal) :
    goal.plan.Bears .spelled goal.AllRead := by
  cases goal with
  | expression level => exact expression_spelled level
  | joined level left => exact joined_spelled given
  | suffixes left =>
      have before : (Tree.expression left).All Tree.IsRead := given
      simp +contextual [plan, Plan.Bears, AllRead, Harvest.spelled, Harvest.Given, Expression.children,
        Tree.all_expression_iff (.call _ _ _), Tree.all_expression_iff (.index _ _ _), Tree.IsRead,
        Expression.IsRead, Token.is_iff, Token.Kind.IsWritten, before]
  | atom => exact atom_spelled
  | parameters =>
      simp +contextual [plan, Plan.Bears, AllRead, Harvest.spelled, Harvest.Given, Token.is_iff,
        Token.Kind.IsWritten]
  | statement => exact statement_spelled
  | branches =>
      simp +contextual [plan, Plan.Bears, AllRead, Harvest.spelled, Harvest.Given,
        Tree.all_expression_iff (.constant _), Tree.IsRead, Expression.IsRead, Constant.IsRead,
        Expression.children]
  | statements nested =>
      simp only [plan, Plan.Bears, Harvest.Given, true_and]
      refine ⟨List.forall_mem_nil _, fun read first => ?_⟩
      cases read with
      | some tree => exact ⟨trivial, fun rest others => List.forall_mem_cons.mpr ⟨first tree rfl, others⟩⟩
      | none => exact ⟨trivial, fun rest others => others⟩
  | list | items | pairs | block | attempt =>
      simp +contextual [plan, Plan.Bears, AllRead, Harvest.spelled, Harvest.Given]

end Goal

/-- No carriage return is left after line ends are brought to one form. -/
theorem Text.unifyLineEnds_no_return (text : List Char) : '\r' ∉ unifyLineEnds text := by
  unfold unifyLineEnds
  intro member
  obtain ⟨character, _, same⟩ := List.mem_map.mp member
  split at same
  · cases same
  · contradiction

/-- The tokens that cover a text are spelled. -/
theorem Text.Covered.spelled {before text : List Char} {tokens : List Token}
    {faults : List LexicalError} (covered : Covered before text tokens faults) :
    ∀ token ∈ tokens, token.Spelled := by
  induction covered with
  | done | unclosed => simp
  | blank _ _ ih | lineEnd _ ih | comment _ _ _ ih | stray _ _ _ ih => exact ih
  | lexeme longest _ _ ih => exact List.forall_mem_cons.mpr ⟨longest.spelled, ih⟩

/-- The tokens of a source are spelled as they should be. -/
theorem Token.areSpelled_scan (source : String) :
    ∀ token ∈ (scan source).1, token.kind.IsWritten → token.Spelled := by
  intro token member written
  have plain := Text.unifyLineEnds_no_return source.toList
  have among : token ∈ (read (Text.unifyLineEnds source.toList)).1 :=
    ((joinNewlines_sublist _).trans (List.dropWhile_sublist _)).subset member
  have own : token ∈ (read (Text.unifyLineEnds source.toList)).1.filter (·.kind.IsWritten) :=
    List.mem_filter.mpr ⟨among, decide_eq_true written⟩
  rw [(read_own _).1] at own
  exact (Text.covered_cut plain []).spelled token own

/-- A source is read if neither its tokens nor their order are at fault. -/
theorem ofTokens_of_parse {source : String} {program : Program} (read : parse source = .ok program) :
    Program.ofTokens (Token.scan source).1 = (program, []) := by
  unfold parse at read
  split at read
  · next tokens scanned =>
      split at read
      · next parsed found =>
          cases read
          rw [scanned]
          exact found
      · cases read
  · cases read

/-- The trees of a source without mistakes are as they are read. -/
theorem allRead_of_parse {source : String} {program : Program} (read : parse source = .ok program) :
    ∀ statement ∈ program, (Tree.statement statement).All Tree.IsRead := by
  have all := Harvest.spelled.ofTokens Goal.plan_spelled (Token.areSpelled_scan source)
    fun _ _ => trivial
  rw [ofTokens_of_parse read] at all
  exact all

end OffsideScript
