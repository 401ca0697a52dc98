import OffsideScript.Tree.Basic

namespace OffsideScript

/-- The expressions that an expression consists of. -/
def Expression.children : Expression → List Expression
  | .constant _ | .variable _ _ => []
  | .group inner => [inner]
  | .unary _ _ operand => [operand]
  | .binary _ _ left right | .logical _ _ left right => [left, right]
  | .conditional condition whenTrue whenFalse => [condition, whenTrue, whenFalse]
  | .assign _ _ value => [value]
  | .array elements => elements
  | .map entries => entries.flatMap fun entry => [entry.1, entry.2]
  | .call callee _ arguments => callee :: arguments
  | .index object _ position => [object, position]
  | .setIndex object _ position value => [object, position, value]

/-- The expressions that a statement evaluates itself. -/
def Statement.operands : Statement → List Expression
  | .print _ value | .evaluate value => [value]
  | .declare _ initial => initial.toList
  | .branch branches => branches.map Prod.fst
  | .loop condition _ => [condition]
  | .ret _ value => value.toList
  | .function _ _ _ | .breakLoop _ | .continueLoop _ => []

/-- The blocks that a statement runs when it is executed. -/
def Statement.blocks : Statement → List (List Statement)
  | .branch branches => branches.map Prod.snd
  | .loop _ body => [body]
  | .print _ _ | .evaluate _ | .declare _ _ | .function _ _ _ | .ret _ _ | .breakLoop _
  | .continueLoop _ => []

/-- The statements in a statement, with the body of a function. -/
def Statement.children : Statement → List Statement
  | .branch branches => branches.flatMap Prod.snd
  | .loop _ body | .function _ _ body => body
  | .print _ _ | .evaluate _ | .declare _ _ | .ret _ _ | .breakLoop _ | .continueLoop _ => []

/-- A part of an expression is smaller. -/
theorem Expression.sizeOf_lt_of_mem_children {tree part : Expression} (member : part ∈ tree.children) :
    sizeOf part < sizeOf tree := by
  cases tree with
  | array elements =>
      have smaller : sizeOf part < sizeOf elements := List.sizeOf_lt_of_mem member
      rw [array.sizeOf_spec]
      omega
  | map entries =>
      obtain ⟨⟨key, value⟩, inside, here⟩ := List.mem_flatMap.mp member
      have smaller := List.sizeOf_lt_of_mem inside
      rw [Prod.mk.sizeOf_spec] at smaller
      rw [map.sizeOf_spec]
      simp only [List.mem_cons, List.not_mem_nil, or_false] at here
      rcases here with rfl | rfl <;> omega
  | call callee closing arguments =>
      rw [call.sizeOf_spec]
      rcases List.mem_cons.mp member with rfl | inside
      · omega
      · have smaller := List.sizeOf_lt_of_mem inside
        omega
  | constant | «variable» => cases member
  | group | unary | assign =>
      cases List.mem_singleton.mp member
      simp only [group.sizeOf_spec, unary.sizeOf_spec, assign.sizeOf_spec]
      omega
  | binary | logical | index =>
      simp only [children, List.mem_cons, List.not_mem_nil, or_false] at member
      simp only [binary.sizeOf_spec, logical.sizeOf_spec, index.sizeOf_spec]
      rcases member with rfl | rfl <;> omega
  | conditional | setIndex =>
      simp only [children, List.mem_cons, List.not_mem_nil, or_false] at member
      simp only [conditional.sizeOf_spec, setIndex.sizeOf_spec]
      rcases member with rfl | rfl | rfl <;> omega

/-- What holds of a tree if it holds of its parts holds of all trees. -/
theorem Expression.induct_children {holds : Expression → Prop}
    (step : ∀ tree, (∀ part ∈ tree.children, holds part) → holds tree) (tree : Expression) :
    holds tree :=
  step tree fun part _ => induct_children step part
termination_by tree
decreasing_by exact sizeOf_lt_of_mem_children ‹_›

/-- A statement in a statement is smaller. -/
theorem Statement.sizeOf_lt_of_mem_children {tree part : Statement} (member : part ∈ tree.children) :
    sizeOf part < sizeOf tree := by
  cases tree with
  | branch branches =>
      obtain ⟨⟨condition, body⟩, inside, here⟩ := List.mem_flatMap.mp member
      have smaller := List.sizeOf_lt_of_mem inside
      have inner : sizeOf part < sizeOf body := List.sizeOf_lt_of_mem here
      rw [Prod.mk.sizeOf_spec] at smaller
      rw [branch.sizeOf_spec]
      omega
  | loop _ body | function _ _ body =>
      have smaller : sizeOf part < sizeOf body := List.sizeOf_lt_of_mem member
      simp only [loop.sizeOf_spec, function.sizeOf_spec]
      omega
  | _ => cases member

/-- What holds of a statement if it holds of the statements in it holds of all statements. -/
theorem Statement.induct_children {holds : Statement → Prop}
    (step : ∀ tree, (∀ part ∈ tree.children, holds part) → holds tree) (tree : Statement) :
    holds tree :=
  step tree fun part _ => induct_children step part
termination_by tree
decreasing_by exact sizeOf_lt_of_mem_children ‹_›

end OffsideScript
