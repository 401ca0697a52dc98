import OffsideScript.Proofs.Grammar.NodeOrder
import OffsideScript.Proofs.Token.Spelling

namespace OffsideScript

/-- What becomes of the lines of tokens and of the numbers of references. -/
structure Relabeling where
  line : Nat → Nat
  node : NodeId → NodeId

/-- Moves lines and nodes by constants. -/
def Relabeling.shift (lines nodes : Nat) : Relabeling :=
  ⟨(· + lines), (· + nodes)⟩

/-- One renaming after another. -/
def Relabeling.comp (after before : Relabeling) : Relabeling :=
  ⟨after.line ∘ before.line, after.node ∘ before.node⟩

/-- The token on its new line. -/
def Token.relabel (labels : Relabeling) (token : Token) : Token :=
  token.onLine (labels.line token.line)

mutual

/-- The expression with new lines and nodes. -/
def Expression.relabel (labels : Relabeling) : Expression → Expression
  | .constant value => .constant value
  | .group inner => .group (inner.relabel labels)
  | .unary operator token operand =>
      .unary operator (token.relabel labels) (operand.relabel labels)
  | .binary operator token left right =>
      .binary operator (token.relabel labels) (left.relabel labels) (right.relabel labels)
  | .logical operator token left right =>
      .logical operator (token.relabel labels) (left.relabel labels) (right.relabel labels)
  | .conditional condition whenTrue whenFalse =>
      .conditional (condition.relabel labels) (whenTrue.relabel labels) (whenFalse.relabel labels)
  | .variable node name => .variable (labels.node node) (name.relabel labels)
  | .assign node name value =>
      .assign (labels.node node) (name.relabel labels) (value.relabel labels)
  | .array elements => .array (relabelAll labels elements)
  | .map entries => .map (relabelEntries labels entries)
  | .call callee closing arguments =>
      .call (callee.relabel labels) (closing.relabel labels) (relabelAll labels arguments)
  | .index object bracket position =>
      .index (object.relabel labels) (bracket.relabel labels) (position.relabel labels)
  | .setIndex object bracket position value =>
      .setIndex (object.relabel labels) (bracket.relabel labels) (position.relabel labels)
        (value.relabel labels)

def Expression.relabelAll (labels : Relabeling) : List Expression → List Expression
  | [] => []
  | expression :: rest => expression.relabel labels :: relabelAll labels rest

def Expression.relabelEntries (labels : Relabeling) :
    List (Expression × Expression) → List (Expression × Expression)
  | [] => []
  | (key, value) :: rest =>
      (key.relabel labels, value.relabel labels) :: relabelEntries labels rest

end

mutual

/-- The statement with new lines and nodes. -/
def Statement.relabel (labels : Relabeling) : Statement → Statement
  | .print keyword value => .print (keyword.relabel labels) (value.relabel labels)
  | .evaluate value => .evaluate (value.relabel labels)
  | .declare name initial =>
      .declare (name.relabel labels) (initial.map (Expression.relabel labels))
  | .branch branches => .branch (relabelBranches labels branches)
  | .loop condition body => .loop (condition.relabel labels) (relabelAll labels body)
  | .function name parameters body =>
      .function (name.relabel labels) (parameters.map (Token.relabel labels))
        (relabelAll labels body)
  | .ret keyword value => .ret (keyword.relabel labels) (value.map (Expression.relabel labels))
  | .breakLoop keyword => .breakLoop (keyword.relabel labels)
  | .continueLoop keyword => .continueLoop (keyword.relabel labels)

def Statement.relabelAll (labels : Relabeling) : List Statement → List Statement
  | [] => []
  | statement :: rest => statement.relabel labels :: relabelAll labels rest

def Statement.relabelBranches (labels : Relabeling) :
    List (Expression × List Statement) → List (Expression × List Statement)
  | [] => []
  | (condition, body) :: rest =>
      (condition.relabel labels, relabelAll labels body) :: relabelBranches labels rest

end

/-- A program whose tokens and references are relabeled. -/
def Program.relabel (labels : Relabeling) (program : Program) : Program :=
  Statement.relabelAll labels program

section Composition

variable (after before : Relabeling)

/-- A token on a new line twice is on the last one. -/
theorem Token.relabel_comp (token : Token) :
    (token.relabel before).relabel after = token.relabel (after.comp before) := rfl

mutual

/-- Renaming an expression twice is renaming it once. -/
theorem Expression.relabel_comp : ∀ expression : Expression,
    (expression.relabel before).relabel after = expression.relabel (after.comp before)
  | .constant _ => rfl
  | .group inner => by simp only [relabel, inner.relabel_comp]
  | .unary _ _ operand => by simp only [relabel, operand.relabel_comp, Token.relabel_comp]
  | .binary _ _ left right | .logical _ _ left right => by
      simp only [relabel, left.relabel_comp, right.relabel_comp, Token.relabel_comp]
  | .conditional condition whenTrue whenFalse => by
      simp only [relabel, condition.relabel_comp, whenTrue.relabel_comp, whenFalse.relabel_comp]
  | .variable _ _ => rfl
  | .assign _ _ value => by simp only [relabel, value.relabel_comp]; rfl
  | .array elements => by simp only [relabel, relabelAll_comp elements]
  | .map entries => by simp only [relabel, relabelEntries_comp entries]
  | .call callee _ arguments => by
      simp only [relabel, callee.relabel_comp, relabelAll_comp arguments, Token.relabel_comp]
  | .index object _ position => by
      simp only [relabel, object.relabel_comp, position.relabel_comp, Token.relabel_comp]
  | .setIndex object _ position value => by
      simp only [relabel, object.relabel_comp, position.relabel_comp, value.relabel_comp,
        Token.relabel_comp]

theorem Expression.relabelAll_comp : ∀ expressions : List Expression,
    relabelAll after (relabelAll before expressions) = relabelAll (after.comp before) expressions
  | [] => rfl
  | expression :: rest => by
      simp only [relabelAll, expression.relabel_comp, relabelAll_comp rest]

theorem Expression.relabelEntries_comp : ∀ entries : List (Expression × Expression),
    relabelEntries after (relabelEntries before entries) =
      relabelEntries (after.comp before) entries
  | [] => rfl
  | (key, value) :: rest => by
      simp only [relabelEntries, key.relabel_comp, value.relabel_comp, relabelEntries_comp rest]

end

mutual

/-- Renaming a statement twice is renaming it once. -/
theorem Statement.relabel_comp : ∀ statement : Statement,
    (statement.relabel before).relabel after = statement.relabel (after.comp before)
  | .print _ value => by
      simp only [relabel, value.relabel_comp, Token.relabel_comp]
  | .evaluate value => by simp only [relabel, value.relabel_comp]
  | .declare _ none => rfl
  | .declare _ (some initial) => by
      simp only [relabel, Option.map_some, initial.relabel_comp, Token.relabel_comp]
  | .branch branches => by simp only [relabel, relabelBranches_comp branches]
  | .loop condition body => by
      simp only [relabel, condition.relabel_comp, relabelAll_comp body]
  | .function _ parameters body => by
      simp only [relabel, relabelAll_comp body, List.map_map, Token.relabel_comp]
      rfl
  | .ret _ none => rfl
  | .ret _ (some value) => by
      simp only [relabel, Option.map_some, value.relabel_comp, Token.relabel_comp]
  | .breakLoop _ => rfl
  | .continueLoop _ => rfl

theorem Statement.relabelAll_comp : ∀ statements : List Statement,
    relabelAll after (relabelAll before statements) = relabelAll (after.comp before) statements
  | [] => rfl
  | statement :: rest => by
      simp only [relabelAll, statement.relabel_comp, relabelAll_comp rest]

theorem Statement.relabelBranches_comp : ∀ branches : List (Expression × List Statement),
    relabelBranches after (relabelBranches before branches) =
      relabelBranches (after.comp before) branches
  | [] => rfl
  | (condition, body) :: rest => by
      simp only [relabelBranches, condition.relabel_comp, relabelAll_comp body,
        relabelBranches_comp rest]

end

end Composition

mutual

/-- The nodes of an expression are renamed. -/
theorem Expression.nodes_relabel (labels : Relabeling) : ∀ expression : Expression,
    (expression.relabel labels).nodes = expression.nodes.map labels.node
  | .constant _ | .variable _ _ => rfl
  | .group inner => inner.nodes_relabel labels
  | .unary _ _ operand => operand.nodes_relabel labels
  | .binary _ _ left right | .logical _ _ left right => by
      simp only [relabel, nodes, List.map_append, left.nodes_relabel labels,
        right.nodes_relabel labels]
  | .conditional condition whenTrue whenFalse => by
      simp only [relabel, nodes, List.map_append, condition.nodes_relabel labels,
        whenTrue.nodes_relabel labels, whenFalse.nodes_relabel labels]
  | .assign _ _ value => by
      simp only [relabel, nodes, List.map_cons, value.nodes_relabel labels]
  | .array elements => nodesAll_relabel labels elements
  | .map entries => nodesEntries_relabel labels entries
  | .call callee _ arguments => by
      simp only [relabel, nodes, List.map_append, callee.nodes_relabel labels,
        nodesAll_relabel labels arguments]
  | .index object _ position => by
      simp only [relabel, nodes, List.map_append, object.nodes_relabel labels,
        position.nodes_relabel labels]
  | .setIndex object _ position value => by
      simp only [relabel, nodes, List.map_append, object.nodes_relabel labels,
        position.nodes_relabel labels, value.nodes_relabel labels]

theorem Expression.nodesAll_relabel (labels : Relabeling) : ∀ expressions : List Expression,
    nodesAll (relabelAll labels expressions) = (nodesAll expressions).map labels.node
  | [] => rfl
  | expression :: rest => by
      simp only [relabelAll, nodesAll, List.map_append, expression.nodes_relabel labels,
        nodesAll_relabel labels rest]

theorem Expression.nodesEntries_relabel (labels : Relabeling) :
    ∀ entries : List (Expression × Expression),
      nodesEntries (relabelEntries labels entries) = (nodesEntries entries).map labels.node
  | [] => rfl
  | (key, value) :: rest => by
      simp only [relabelEntries, nodesEntries, List.map_append, key.nodes_relabel labels,
        value.nodes_relabel labels, nodesEntries_relabel labels rest]

end

mutual

/-- The nodes of a statement are renamed. -/
theorem Statement.nodes_relabel (labels : Relabeling) : ∀ statement : Statement,
    (statement.relabel labels).nodes = statement.nodes.map labels.node
  | .print _ value => value.nodes_relabel labels
  | .evaluate value => value.nodes_relabel labels
  | .declare _ none => rfl
  | .declare _ (some initial) => initial.nodes_relabel labels
  | .branch branches => nodesBranches_relabel labels branches
  | .loop condition body => by
      simp only [relabel, nodes, List.map_append, condition.nodes_relabel labels,
        nodesAll_relabel labels body]
  | .function _ _ body => nodesAll_relabel labels body
  | .ret _ none => rfl
  | .ret _ (some value) => value.nodes_relabel labels
  | .breakLoop _ => rfl
  | .continueLoop _ => rfl

theorem Statement.nodesAll_relabel (labels : Relabeling) : ∀ statements : List Statement,
    nodesAll (relabelAll labels statements) = (nodesAll statements).map labels.node
  | [] => rfl
  | statement :: rest => by
      simp only [relabelAll, nodesAll, List.map_append, statement.nodes_relabel labels,
        nodesAll_relabel labels rest]

theorem Statement.nodesBranches_relabel (labels : Relabeling) :
    ∀ branches : List (Expression × List Statement),
      nodesBranches (relabelBranches labels branches) = (nodesBranches branches).map labels.node
  | [] => rfl
  | (condition, body) :: rest => by
      simp only [relabelBranches, nodesBranches, List.map_append, condition.nodes_relabel labels,
        nodesAll_relabel labels body, nodesBranches_relabel labels rest]

end

/-- Without its line, a token is the same on any line. -/
theorem Token.unlined_relabel (labels : Relabeling) (token : Token) :
    (token.relabel labels).unlined = token.unlined := rfl

mutual

/-- What is left of an expression when the lines of its tokens do not count. -/
def Expression.unlined : Expression → Expression
  | .constant value => .constant value
  | .group inner => .group inner.unlined
  | .unary operator token operand => .unary operator token.unlined operand.unlined
  | .binary operator token left right => .binary operator token.unlined left.unlined right.unlined
  | .logical operator token left right =>
      .logical operator token.unlined left.unlined right.unlined
  | .conditional condition whenTrue whenFalse =>
      .conditional condition.unlined whenTrue.unlined whenFalse.unlined
  | .variable node name => .variable node name.unlined
  | .assign node name value => .assign node name.unlined value.unlined
  | .array elements => .array (unlinedAll elements)
  | .map entries => .map (unlinedEntries entries)
  | .call callee closing arguments =>
      .call callee.unlined closing.unlined (unlinedAll arguments)
  | .index object bracket position => .index object.unlined bracket.unlined position.unlined
  | .setIndex object bracket position value =>
      .setIndex object.unlined bracket.unlined position.unlined value.unlined

def Expression.unlinedAll : List Expression → List Expression
  | [] => []
  | expression :: rest => expression.unlined :: unlinedAll rest

def Expression.unlinedEntries : List (Expression × Expression) → List (Expression × Expression)
  | [] => []
  | (key, value) :: rest => (key.unlined, value.unlined) :: unlinedEntries rest

end

mutual

/-- What is left of a statement when the lines of its tokens do not count. -/
def Statement.unlined : Statement → Statement
  | .print keyword value => .print keyword.unlined value.unlined
  | .evaluate value => .evaluate value.unlined
  | .declare name initial => .declare name.unlined (initial.map Expression.unlined)
  | .branch branches => .branch (unlinedBranches branches)
  | .loop condition body => .loop condition.unlined (unlinedAll body)
  | .function name parameters body =>
      .function name.unlined (parameters.map Token.unlined) (unlinedAll body)
  | .ret keyword value => .ret keyword.unlined (value.map Expression.unlined)
  | .breakLoop keyword => .breakLoop keyword.unlined
  | .continueLoop keyword => .continueLoop keyword.unlined

def Statement.unlinedAll : List Statement → List Statement
  | [] => []
  | statement :: rest => statement.unlined :: unlinedAll rest

def Statement.unlinedBranches :
    List (Expression × List Statement) → List (Expression × List Statement)
  | [] => []
  | (condition, body) :: rest => (condition.unlined, unlinedAll body) :: unlinedBranches rest

end

section Lines

variable {labels : Relabeling}

mutual

/-- Without its lines, an expression is the same on any lines. -/
theorem Expression.unlined_relabel (nodes : ∀ node, labels.node node = node) :
    ∀ expression : Expression, (expression.relabel labels).unlined = expression.unlined
  | .constant _ => rfl
  | .group inner => by simp only [relabel, unlined, inner.unlined_relabel nodes]
  | .unary _ _ operand => by
      simp only [relabel, unlined, operand.unlined_relabel nodes, Token.unlined_relabel]
  | .binary _ _ left right | .logical _ _ left right => by
      simp only [relabel, unlined, left.unlined_relabel nodes, right.unlined_relabel nodes,
        Token.unlined_relabel]
  | .conditional condition whenTrue whenFalse => by
      simp only [relabel, unlined, condition.unlined_relabel nodes, whenTrue.unlined_relabel nodes,
        whenFalse.unlined_relabel nodes]
  | .variable _ _ => by simp only [relabel, unlined, nodes, Token.unlined_relabel]
  | .assign _ _ value => by
      simp only [relabel, unlined, nodes, value.unlined_relabel nodes, Token.unlined_relabel]
  | .array elements => by simp only [relabel, unlined, unlinedAll_relabel nodes elements]
  | .map entries => by simp only [relabel, unlined, unlinedEntries_relabel nodes entries]
  | .call callee _ arguments => by
      simp only [relabel, unlined, callee.unlined_relabel nodes, unlinedAll_relabel nodes arguments,
        Token.unlined_relabel]
  | .index object _ position => by
      simp only [relabel, unlined, object.unlined_relabel nodes, position.unlined_relabel nodes,
        Token.unlined_relabel]
  | .setIndex object _ position value => by
      simp only [relabel, unlined, object.unlined_relabel nodes, position.unlined_relabel nodes,
        value.unlined_relabel nodes, Token.unlined_relabel]

theorem Expression.unlinedAll_relabel (nodes : ∀ node, labels.node node = node) :
    ∀ expressions : List Expression, unlinedAll (relabelAll labels expressions) = unlinedAll expressions
  | [] => rfl
  | expression :: rest => by
      simp only [relabelAll, unlinedAll, expression.unlined_relabel nodes,
        unlinedAll_relabel nodes rest]

theorem Expression.unlinedEntries_relabel (nodes : ∀ node, labels.node node = node) :
    ∀ entries : List (Expression × Expression),
      unlinedEntries (relabelEntries labels entries) = unlinedEntries entries
  | [] => rfl
  | (key, value) :: rest => by
      simp only [relabelEntries, unlinedEntries, key.unlined_relabel nodes,
        value.unlined_relabel nodes, unlinedEntries_relabel nodes rest]

end

mutual

/-- Without its lines, a statement is the same on any lines. -/
theorem Statement.unlined_relabel (nodes : ∀ node, labels.node node = node) :
    ∀ statement : Statement, (statement.relabel labels).unlined = statement.unlined
  | .print _ value => by
      simp only [relabel, unlined, value.unlined_relabel nodes, Token.unlined_relabel]
  | .evaluate value => by simp only [relabel, unlined, value.unlined_relabel nodes]
  | .declare _ none => rfl
  | .declare _ (some initial) => by
      simp only [relabel, unlined, Option.map_some, initial.unlined_relabel nodes,
        Token.unlined_relabel]
  | .branch branches => by simp only [relabel, unlined, unlinedBranches_relabel nodes branches]
  | .loop condition body => by
      simp only [relabel, unlined, condition.unlined_relabel nodes, unlinedAll_relabel nodes body]
  | .function _ parameters body => by
      simp only [relabel, unlined, List.map_map, unlinedAll_relabel nodes body,
        Token.unlined_relabel]
      rfl
  | .ret _ none => rfl
  | .ret _ (some value) => by
      simp only [relabel, unlined, Option.map_some, value.unlined_relabel nodes,
        Token.unlined_relabel]
  | .breakLoop _ => rfl
  | .continueLoop _ => rfl

theorem Statement.unlinedAll_relabel (nodes : ∀ node, labels.node node = node) :
    ∀ statements : List Statement, unlinedAll (relabelAll labels statements) = unlinedAll statements
  | [] => rfl
  | statement :: rest => by
      simp only [relabelAll, unlinedAll, statement.unlined_relabel nodes,
        unlinedAll_relabel nodes rest]

theorem Statement.unlinedBranches_relabel (nodes : ∀ node, labels.node node = node) :
    ∀ branches : List (Expression × List Statement),
      unlinedBranches (relabelBranches labels branches) = unlinedBranches branches
  | [] => rfl
  | (condition, body) :: rest => by
      simp only [relabelBranches, unlinedBranches, condition.unlined_relabel nodes,
        unlinedAll_relabel nodes body, unlinedBranches_relabel nodes rest]

end

end Lines

end OffsideScript
