/-
This file reads the nested lists back that trees are displayed as. They say all about a tree but the lines of its
tokens and the numbers of its references.
-/

import OffsideScript.Proofs.Grammar.Relabel
import OffsideScript.Proofs.Tree.Display
import OffsideScript.Proofs.Tree.Nodes

namespace OffsideScript

/-- No lines and no numbers. -/
def Relabeling.erased : Relabeling :=
  ⟨fun _ => 0, fun _ => 0⟩

/-- A token that is always spelled in the same way. -/
def Token.fixed (kind : Token.Kind) : Token :=
  ⟨kind, kind.spelling, 0, none⟩

/-- A name on no line. -/
def Token.named (name : String) : Token :=
  ⟨.identifier, name, 0, none⟩

/-- The unary operator of a symbol. -/
def UnaryOperator.ofSymbol? (symbol : String) : Option UnaryOperator :=
  [negate, not].find? (·.symbol == symbol)

/-- The binary operator of a symbol. -/
def BinaryOperator.ofSymbol? (symbol : String) : Option BinaryOperator :=
  [sequence, concat, add, subtract, multiply, divide, remainder, power, equal, notEqual, less,
    lessEqual, greater, greaterEqual].find? (·.symbol == symbol)

/-- The logical operator of a symbol. -/
def LogicalOperator.ofSymbol? (symbol : String) : Option LogicalOperator :=
  [and, or, xor].find? (·.symbol == symbol)

namespace Expression

/-- The expression that is displayed as an atom. -/
def ofAtom : Atom → Expression
  | .word "nihl" => .constant .nihl
  | .word "true" => .constant (.boolean true)
  | .word "false" => .constant (.boolean false)
  | .word name => .variable 0 (.named name)
  | .number value => .constant (.number value)
  | .quoted content => .constant (.text content)

/-- An operator with its operands. -/
def ofOperator? (symbol : String) : List Expression → Option Expression
  | [operand] => do
      let operator ← UnaryOperator.ofSymbol? symbol
      return .unary operator (.fixed operator.kind) operand
  | [left, right] =>
      match LogicalOperator.ofSymbol? symbol with
      | some operator => some (.logical operator (.fixed operator.kind) left right)
      | none => do
          let operator ← BinaryOperator.ofSymbol? symbol
          return .binary operator (.fixed operator.kind) left right
  | _ => none

/-- The forms whose parts are expressions. The name in an assignment is read as a variable at first. -/
def ofForm? : String → List Expression → Option Expression
  | "group", [inner] => some (.group inner)
  | "?", [condition, whenTrue, whenFalse] => some (.conditional condition whenTrue whenFalse)
  | "=", [.variable node name, value] => some (.assign node name value)
  | "array", elements => some (.array elements)
  | "call", callee :: arguments => some (.call callee (.fixed .rightParen) arguments)
  | "index", [object, position] => some (.index object (.fixed .leftBracket) position)
  | "set-index", [object, position, value] =>
      some (.setIndex object (.fixed .leftBracket) position value)
  | symbol, operands => ofOperator? symbol operands

mutual

/-- The expression that is displayed in a shape, if there is one. -/
def ofShape? : Shape → Option Expression
  | .atom value => some (ofAtom value)
  | .list (.atom (.word head) :: parts) =>
      if head = "map" then (ofEntries? parts).map .map
      else (ofAll? parts).bind (ofForm? head)
  | .list _ => none

def ofAll? : List Shape → Option (List Expression)
  | [] => some []
  | part :: rest => do return (← ofShape? part) :: (← ofAll? rest)

def ofEntries? : List Shape → Option (List (Expression × Expression))
  | [] => some []
  | .list [key, value] :: rest => do
      return ((← ofShape? key), (← ofShape? value)) :: (← ofEntries? rest)
  | _ :: _ => none

end

end Expression

namespace Statement

/-- The names that are displayed as words. -/
def namesOf? : List Shape → Option (List Token)
  | [] => some []
  | .atom (.word name) :: rest => do return .named name :: (← namesOf? rest)
  | _ :: _ => none

mutual

/-- The statement that is displayed in a shape, if there is one. -/
def ofShape? : Shape → Option Statement
  | .list (.atom (.word head) :: parts) =>
      match head, parts with
      | "print", [value] => (Expression.ofShape? value).map (.print (.fixed .printWord))
      | "expr", [value] => (Expression.ofShape? value).map .evaluate
      | "let", [.atom (.word name)] => some (.declare (.named name) none)
      | "let", [.atom (.word name), initial] =>
          (Expression.ofShape? initial).map fun initial => .declare (.named name) (some initial)
      | "if", branches => (ofBranches? branches).map .branch
      | "while", [condition, .list (_ :: body)] =>
          (Expression.ofShape? condition).bind fun condition => (ofAll? body).map (.loop condition)
      | "func", .atom (.word name) :: .list parameters :: body =>
          (namesOf? parameters).bind fun parameters =>
            (ofAll? body).map (.function (.named name) parameters)
      | "ret", [] => some (.ret (.fixed .retWord) none)
      | "ret", [value] => (Expression.ofShape? value).map fun value => .ret (.fixed .retWord) (some value)
      | "break", [] => some (.breakLoop (.fixed .breakWord))
      | "continue", [] => some (.continueLoop (.fixed .continueWord))
      | _, _ => none
  | _ => none

def ofAll? : List Shape → Option (List Statement)
  | [] => some []
  | part :: rest => do return (← ofShape? part) :: (← ofAll? rest)

def ofBranches? : List Shape → Option (List (Expression × List Statement))
  | [] => some []
  | .list [condition, .list (_ :: body)] :: rest => do
      return ((← Expression.ofShape? condition), (← ofAll? body)) :: (← ofBranches? rest)
  | _ :: _ => none

end

end Statement

/-- No number in a tree is infinite or NaN. -/
def Tree.HasFiniteNumbers (tree : Tree) : Prop :=
  ∀ value, tree.Has (.expression (.constant (.number value))) → Number.isFinite value = true

/-- A tree that is as it is read, and whose numbers are finite. -/
structure Tree.IsProper (tree : Tree) : Prop where
  read : tree.All Tree.IsRead
  finite : tree.HasFiniteNumbers

namespace Tree.IsProper

variable {outer inner : Tree}

/-- The trees inside of a proper tree are proper. -/
theorem of_has (proper : outer.IsProper) (has : outer.Has inner) : inner.IsProper :=
  ⟨fun tree deeper => proper.read tree (has.trans deeper),
    fun value deeper => proper.finite value (has.trans deeper)⟩

/-- The parts of a proper expression are proper. -/
theorem part {tree part : Expression} (proper : (Tree.expression tree).IsProper)
    (member : part ∈ tree.children) : (Tree.expression part).IsProper :=
  proper.of_has (.part member (.refl _))

/-- The expressions of a proper statement are proper. -/
theorem operand {tree : Statement} {part : Expression} (proper : (Tree.statement tree).IsProper)
    (member : part ∈ tree.operands) : (Tree.expression part).IsProper :=
  proper.of_has (.operand member (.refl _))

/-- The statements in a proper statement are proper. -/
theorem body {tree part : Statement} (proper : (Tree.statement tree).IsProper)
    (member : part ∈ tree.children) : (Tree.statement part).IsProper :=
  proper.of_has (.body member (.refl _))

end Tree.IsProper

namespace Token.Is

variable {token : Token} {kind : Token.Kind}

/-- A token of a fixed kind is told by its kind. -/
theorem relabel_fixed (is : token.Is kind) (other : kind ∉ [.identifier, .number, .text]) :
    token.relabel .erased = .fixed kind := by
  obtain ⟨rfl, spelled⟩ := is
  obtain ⟨lexeme, literal⟩ := spelled.fixed other
  unfold Token.relabel Token.onLine Token.fixed
  rw [lexeme, literal]
  rfl

/-- What it means that a name is spelled. -/
theorem name (is : token.Is .identifier) : Piece.IsWord token.lexeme.toList ∧
    Token.Kind.keyword? token.lexeme = none ∧ token.literal = none := by
  have spelled := is.spelled
  unfold Spelled at spelled
  rwa [is.kind_eq] at spelled

/-- A name is told by its lexeme. -/
theorem relabel_named (is : token.Is .identifier) :
    token.relabel .erased = .named token.lexeme := by
  unfold Token.relabel Token.onLine Token.named
  rw [is.kind_eq, is.name.2.2]
  rfl

/-- A name is a proper atom. -/
theorem isProper (is : token.Is .identifier) : (Atom.word token.lexeme).IsProper := by
  obtain ⟨first, rest, shape, starts, parts⟩ := is.name.1
  have plain : ∀ character, Piece.isWordPart character = true → character ∉ Atom.delimiters := by
    intro character part delimiter
    simp only [Atom.delimiters, List.mem_cons, List.not_mem_nil, or_false] at delimiter
    rcases delimiter with rfl | rfl | rfl | rfl <;> exact absurd part (by decide)
  have start : Piece.isWordPart first = true := by
    rcases Bool.or_eq_true_iff.mp starts with letter | line
    · simp [Piece.isWordPart, Char.isAlphanum, letter]
    · simp [Piece.isWordPart, line]
  refine ⟨?_, ?_, ?_⟩
  · intro empty
    rw [empty] at shape
    cases shape
  · rw [shape]
    exact List.forall_mem_cons.mpr
      ⟨plain first start, fun character member => plain character (parts character member)⟩
  · rw [shape]
    rintro _ ⟨⟩
    exact Piece.isDigit_of_isWordStart starts

/-- Names are no constants. -/
theorem ofAtom (is : token.Is .identifier) :
    Expression.ofAtom (.word token.lexeme) = .variable 0 (.named token.lexeme) := by
  have other (word : String) (keyword : Token.Kind.keyword? word ≠ none) : token.lexeme ≠ word := by
    rintro rfl
    exact keyword is.name.2.1
  exact Expression.ofAtom.eq_4 _ (other _ (by decide)) (other _ (by decide)) (other _ (by decide))

end Token.Is

/-- The words that tell forms of expressions that are no operators. -/
def Expression.heads : List String :=
  ["group", "?", "=", "array", "map", "call", "index", "set-index"]

/-- The words that tell statements. -/
def Statement.heads : List String :=
  ["print", "expr", "let", "if", "while", "func", "ret", "break", "continue"]

/-- The words that tell forms. -/
def Shape.heads : List String :=
  Expression.heads ++ Statement.heads ++ ["block"]

/-- Words that tell forms are proper atoms. -/
theorem Atom.isProper_head : ∀ head ∈ Shape.heads, (Atom.word head).IsProper := by
  simp [Shape.heads, Expression.heads, Statement.heads, Atom.IsProper, Atom.delimiters]

/-- Words that stand for constants are proper atoms. -/
theorem Atom.isProper_constant : ∀ word ∈ ["nihl", "true", "false"], (Atom.word word).IsProper := by
  simp [Atom.IsProper, Atom.delimiters]

/-- A word that tells a form whose parts are expressions. -/
structure Shape.IsHead (head : String) : Prop where
  proper : (Atom.word head).IsProper
  other : head ≠ "map"

/-- All words that tell forms, except for maps, tell a form of expressions. -/
theorem Shape.isHead {head : String} (known : head ∈ heads.erase "map") : IsHead head := by
  have nodup : heads.Nodup := by decide
  rw [nodup.mem_erase_iff] at known
  exact ⟨Atom.isProper_head head known.2, known.1⟩

/-- The symbol of a unary operator tells a form. -/
theorem UnaryOperator.isHead (operator : UnaryOperator) : Shape.IsHead operator.symbol := by
  constructor <;> cases operator <;> simp [Atom.IsProper, Atom.delimiters, symbol]

/-- The symbol of a binary operator tells a form. -/
theorem BinaryOperator.isHead (operator : BinaryOperator) : Shape.IsHead operator.symbol := by
  constructor <;> cases operator <;> simp [Atom.IsProper, Atom.delimiters, symbol]

/-- The symbol of a logical operator tells a form. -/
theorem LogicalOperator.isHead (operator : LogicalOperator) : Shape.IsHead operator.symbol := by
  constructor <;> cases operator <;> simp [Atom.IsProper, Atom.delimiters, symbol]

/-- The kind of a unary operator has a fixed spelling. -/
theorem UnaryOperator.kind_fixed (operator : UnaryOperator) :
    operator.kind ∉ [.identifier, .number, .text] := by
  cases operator <;> decide

/-- The kind of a binary operator has a fixed spelling. -/
theorem BinaryOperator.kind_fixed (operator : BinaryOperator) :
    operator.kind ∉ [.identifier, .number, .text] := by
  cases operator <;> decide

/-- The kind of a logical operator has a fixed spelling. -/
theorem LogicalOperator.kind_fixed (operator : LogicalOperator) :
    operator.kind ∉ [.identifier, .number, .text] := by
  cases operator <;> decide

namespace Expression

variable (head : String) (parts : List Shape)

/-- Except for maps, a form is read by its head and its parts. -/
theorem ofShape?_form (other : head ≠ "map") :
    ofShape? (.form head parts) = (ofAll? parts).bind (ofForm? head) := by
  simp [Shape.form, Shape.word, ofShape?, other]

/-- A unary operator is read from its symbol and one operand. -/
theorem ofForm?_unary (operator : UnaryOperator) (operand : Expression) :
    ofForm? operator.symbol [operand] = some (.unary operator (.fixed operator.kind) operand) := by
  cases operator <;> rfl

/-- A binary operator is read from its symbol and two operands. -/
theorem ofForm?_binary (operator : BinaryOperator) (left right : Expression) :
    ofForm? operator.symbol [left, right] =
      some (.binary operator (.fixed operator.kind) left right) := by
  cases operator <;> rfl

/-- A logical operator is read from its symbol and two operands. -/
theorem ofForm?_logical (operator : LogicalOperator) (left right : Expression) :
    ofForm? operator.symbol [left, right] =
      some (.logical operator (.fixed operator.kind) left right) := by
  cases operator <;> rfl

/-- What is displayed can be read back. -/
structure Legible (tree : Expression) : Prop where
  proper : tree.shape.IsProper
  reads : ofShape? tree.shape = some (tree.relabel .erased)

/-- A list of expressions that can be read back. -/
structure LegibleAll (trees : List Expression) : Prop where
  proper : Shape.AreProper (shapeAll trees)
  reads : ofAll? (shapeAll trees) = some (relabelAll .erased trees)

/-- A list of pairs that can be read back. -/
structure LegibleEntries (entries : List (Expression × Expression)) : Prop where
  proper : Shape.AreProper (shapeEntries entries)
  reads : ofEntries? (shapeEntries entries) = some (relabelEntries .erased entries)

/-- A list is legible if its members are. -/
theorem LegibleAll.of_forall {trees : List Expression} (legible : ∀ tree ∈ trees, Legible tree) :
    LegibleAll trees := by
  induction trees with
  | nil => exact ⟨trivial, rfl⟩
  | cons tree rest ih =>
      obtain ⟨first, others⟩ := List.forall_mem_cons.mp legible
      obtain ⟨proper, reads⟩ := ih others
      refine ⟨⟨first.proper, proper⟩, ?_⟩
      simp [shapeAll, ofAll?, relabelAll, first.reads, reads]

/-- A list of pairs is legible if its members are. -/
theorem LegibleEntries.of_forall {entries : List (Expression × Expression)}
    (legible : ∀ entry ∈ entries, Legible entry.1 ∧ Legible entry.2) : LegibleEntries entries := by
  induction entries with
  | nil => exact ⟨trivial, rfl⟩
  | cons entry rest ih =>
      obtain ⟨⟨key, value⟩, others⟩ := List.forall_mem_cons.mp legible
      obtain ⟨proper, reads⟩ := ih others
      refine ⟨⟨⟨key.proper, value.proper, trivial⟩, proper⟩, ?_⟩
      simp [shapeEntries, ofEntries?, relabelEntries, key.reads, value.reads, reads]

/-- A proper constant is legible. -/
theorem legible_constant {value : Constant} (proper : (Tree.expression (.constant value)).IsProper) :
    Legible (.constant value) := by
  have read : value.IsRead := proper.read _ (.refl _)
  cases value with
  | nihl => exact ⟨Atom.isProper_constant "nihl" (by decide), rfl⟩
  | boolean value =>
      cases value with
      | true => exact ⟨Atom.isProper_constant "true" (by decide), rfl⟩
      | false => exact ⟨Atom.isProper_constant "false" (by decide), rfl⟩
  | number value => exact ⟨⟨proper.finite value (.refl _), read⟩, rfl⟩
  | text value => exact ⟨read, rfl⟩

/-- A variable is legible. -/
theorem legible_variable {name : Token} (is : name.Is .identifier) (node : NodeId) :
    Legible (.variable node name) := by
  refine ⟨is.isProper, ?_⟩
  rw [relabel, is.relabel_named]
  exact congrArg some is.ofAtom

/-- A form is legible if its parts are. -/
theorem legible_form {tree : Expression} {head : String} {parts : List Expression}
    (isHead : Shape.IsHead head) (inside : ∀ part ∈ parts, Legible part)
    (displayed : tree.shape = .form head (shapeAll parts))
    (formed : ofForm? head (relabelAll .erased parts) = some (tree.relabel .erased)) :
    Legible tree := by
  obtain ⟨proper, reads⟩ := LegibleAll.of_forall inside
  constructor
  · rw [displayed]
    exact ⟨isHead.proper, proper⟩
  · rw [displayed, ofShape?_form _ _ isHead.other, reads]
    exact formed

/-- A map is legible if its keys and values are. -/
theorem legible_map {entries : List (Expression × Expression)}
    (inside : ∀ part ∈ (map entries).children, Legible part) : Legible (.map entries) := by
  have legible : LegibleEntries entries := .of_forall fun entry member =>
    ⟨inside entry.1 (List.mem_flatMap.mpr ⟨entry, member, by simp⟩),
      inside entry.2 (List.mem_flatMap.mpr ⟨entry, member, by simp⟩)⟩
  refine ⟨⟨Atom.isProper_head "map" (by decide), legible.proper⟩, ?_⟩
  simp [shape, Shape.form, Shape.word, ofShape?, legible.reads, relabel]

/-- Every proper expression is legible. -/
theorem legible {tree : Expression} (proper : (Tree.expression tree).IsProper) : Legible tree := by
  induction tree using induct_children with
  | step tree ih =>
      have read : tree.IsRead := proper.read _ (.refl _)
      have inside : ∀ part ∈ tree.children, Legible part :=
        fun part member => ih part member (proper.part member)
      cases tree with
      | constant value => exact legible_constant proper
      | «variable» node name => exact legible_variable read node
      | group | conditional | array => exact legible_form (Shape.isHead (by decide)) inside rfl rfl
      | unary operator token operand =>
          apply legible_form operator.isHead inside rfl
          rw [relabel, Token.Is.relabel_fixed read operator.kind_fixed]
          exact ofForm?_unary operator _
      | binary operator token left right =>
          apply legible_form operator.isHead inside rfl
          rw [relabel, Token.Is.relabel_fixed read operator.kind_fixed]
          exact ofForm?_binary operator _ _
      | logical operator token left right =>
          apply legible_form operator.isHead inside rfl
          rw [relabel, Token.Is.relabel_fixed read operator.kind_fixed]
          exact ofForm?_logical operator _ _
      | assign node name value =>
          have parts : ∀ part ∈ [Expression.variable node name, value], Legible part :=
            List.forall_mem_cons.mpr ⟨legible_variable read node, inside⟩
          exact legible_form (Shape.isHead (by decide)) parts rfl rfl
      | map entries => exact legible_map inside
      | call | index | setIndex =>
          apply legible_form (Shape.isHead (by decide)) inside rfl
          rw [relabel, Token.Is.relabel_fixed read (by decide)]
          rfl

end Expression

namespace Statement

/-- A statement that can be read back. -/
structure Legible (tree : Statement) : Prop where
  proper : tree.shape.IsProper
  reads : ofShape? tree.shape = some (tree.relabel .erased)

/-- A list of statements that can be read back. -/
structure LegibleAll (trees : List Statement) : Prop where
  proper : Shape.AreProper (shapeAll trees)
  reads : ofAll? (shapeAll trees) = some (relabelAll .erased trees)

/-- A list of branches that can be read back. -/
structure LegibleBranches (branches : List (Expression × List Statement)) : Prop where
  proper : Shape.AreProper (shapeBranches branches)
  reads : ofBranches? (shapeBranches branches) = some (relabelBranches .erased branches)

/-- A list of names that can be read back. -/
structure LegibleNames (names : List Token) : Prop where
  proper : Shape.AreProper (names.map fun name => .word name.lexeme)
  reads : namesOf? (names.map fun name => .word name.lexeme) = some (names.map (Token.relabel .erased))

/-- Names are legible. -/
theorem legibleNames {names : List Token} (all : ∀ name ∈ names, name.Is .identifier) :
    LegibleNames names := by
  induction names with
  | nil => exact ⟨trivial, rfl⟩
  | cons name rest ih =>
      obtain ⟨is, others⟩ := List.forall_mem_cons.mp all
      obtain ⟨proper, reads⟩ := ih others
      refine ⟨⟨is.isProper, proper⟩, ?_⟩
      simp only [Shape.word] at reads
      simp [Shape.word, namesOf?, reads, is.relabel_named]

/-- A list of statements is legible if its members are. -/
theorem LegibleAll.of_forall {trees : List Statement} (legible : ∀ tree ∈ trees, Legible tree) :
    LegibleAll trees := by
  induction trees with
  | nil => exact ⟨trivial, rfl⟩
  | cons tree rest ih =>
      obtain ⟨first, others⟩ := List.forall_mem_cons.mp legible
      obtain ⟨proper, reads⟩ := ih others
      refine ⟨⟨first.proper, proper⟩, ?_⟩
      simp [shapeAll, ofAll?, relabelAll, first.reads, reads]

/-- A legible block is a proper form. -/
theorem LegibleAll.block {body : List Statement} (inside : LegibleAll body) :
    (Shape.form "block" (shapeAll body)).IsProper :=
  ⟨Atom.isProper_head "block" (by decide), inside.proper⟩

/-- A list of branches is legible if its conditions and blocks are. -/
theorem LegibleBranches.of_forall {branches : List (Expression × List Statement)}
    (legible : ∀ branch ∈ branches, branch.1.Legible ∧ LegibleAll branch.2) :
    LegibleBranches branches := by
  induction branches with
  | nil => exact ⟨trivial, rfl⟩
  | cons branch rest ih =>
      obtain ⟨⟨condition, body⟩, others⟩ := List.forall_mem_cons.mp legible
      obtain ⟨proper, reads⟩ := ih others
      refine ⟨⟨⟨condition.proper, body.block, trivial⟩, proper⟩, ?_⟩
      simp [shapeBranches, Shape.form, ofBranches?, relabelBranches, condition.reads, body.reads, reads]

/-- A form is legible if its parts are proper and it reads back. -/
theorem legible_form {tree : Statement} {head : String} {parts : List Shape}
    (known : head ∈ Shape.heads) (displayed : tree.shape = .form head parts)
    (inside : Shape.AreProper parts)
    (reads : ofShape? (.form head parts) = some (tree.relabel .erased)) : Legible tree := by
  constructor
  · rw [displayed]
    exact ⟨Atom.isProper_head head known, inside⟩
  · rw [displayed]
    exact reads

/-- Every proper statement is legible. -/
theorem legible {tree : Statement} (proper : (Tree.statement tree).IsProper) : Legible tree := by
  induction tree using induct_children with
  | step tree ih =>
      have read : tree.IsRead := proper.read _ (.refl _)
      have operands : ∀ part ∈ tree.operands, part.Legible :=
        fun part member => Expression.legible (proper.operand member)
      have bodies : ∀ part ∈ tree.children, Legible part :=
        fun part member => ih part member (proper.body member)
      cases tree with
      | print keyword value =>
          have inside := operands value List.mem_cons_self
          refine legible_form (by decide) rfl ⟨inside.proper, trivial⟩ ?_
          change (Expression.ofShape? value.shape).map _ = _
          rw [inside.reads, relabel, Token.Is.relabel_fixed read (by decide)]
          rfl
      | evaluate value =>
          have inside := operands value List.mem_cons_self
          refine legible_form (by decide) rfl ⟨inside.proper, trivial⟩ ?_
          change (Expression.ofShape? value.shape).map _ = _
          rw [inside.reads]
          rfl
      | declare name initial =>
          have is : name.Is .identifier := read
          cases initial with
          | none =>
              refine legible_form (by decide) rfl ⟨is.isProper, trivial⟩ ?_
              rw [relabel, is.relabel_named]
              rfl
          | some initial =>
              have inside := operands initial List.mem_cons_self
              refine legible_form (by decide) rfl ⟨is.isProper, inside.proper, trivial⟩ ?_
              change (Expression.ofShape? initial.shape).map _ = _
              rw [inside.reads, relabel, is.relabel_named]
              rfl
      | branch branches =>
          have inside : LegibleBranches branches := .of_forall fun branch member =>
            ⟨operands branch.1 (List.mem_map_of_mem member),
              .of_forall fun tree here => bodies tree (List.mem_flatMap.mpr ⟨branch, member, here⟩)⟩
          refine legible_form (by decide) rfl inside.proper ?_
          change (ofBranches? (shapeBranches branches)).map _ = _
          rw [inside.reads]
          rfl
      | loop condition body =>
          have first := operands condition List.mem_cons_self
          have second : LegibleAll body := .of_forall bodies
          refine legible_form (by decide) rfl ⟨first.proper, second.block, trivial⟩ ?_
          change (Expression.ofShape? condition.shape).bind (fun _ => (ofAll? (shapeAll body)).map _) = _
          rw [first.reads, second.reads]
          rfl
      | function name parameters body =>
          obtain ⟨is, are⟩ : name.Is .identifier ∧ ∀ parameter ∈ parameters, parameter.Is .identifier :=
            read
          have names := legibleNames are
          have inside : LegibleAll body := .of_forall bodies
          refine legible_form (by decide) rfl ⟨is.isProper, names.proper, inside.proper⟩ ?_
          change (namesOf? (parameters.map fun name => .word name.lexeme)).bind
            (fun _ => (ofAll? (shapeAll body)).map _) = _
          rw [names.reads, inside.reads, relabel, is.relabel_named]
          rfl
      | ret keyword value =>
          have is : keyword.Is .retWord := read
          cases value with
          | none =>
              refine legible_form (by decide) rfl trivial ?_
              rw [relabel, is.relabel_fixed (by decide)]
              rfl
          | some value =>
              have inside := operands value List.mem_cons_self
              refine legible_form (by decide) rfl ⟨inside.proper, trivial⟩ ?_
              change (Expression.ofShape? value.shape).map _ = _
              rw [inside.reads, relabel, is.relabel_fixed (by decide)]
              rfl
      | breakLoop | continueLoop =>
          refine legible_form (by decide) rfl trivial ?_
          rw [relabel, Token.Is.relabel_fixed read (by decide)]
          rfl

end Statement

end OffsideScript
