import OffsideScript.Proofs.Tree.Legible

namespace OffsideScript

namespace Expression

/-- A symbol that belongs to no operator has no operands. -/
theorem ofOperator?_eq_none {symbol : String} (unary : UnaryOperator.ofSymbol? symbol = none)
    (logical : LogicalOperator.ofSymbol? symbol = none)
    (binary : BinaryOperator.ofSymbol? symbol = none) (operands : List Expression) :
    ofOperator? symbol operands = none := by
  unfold ofOperator?
  split
  · simp [unary]
  · simp [logical, binary]
  · rfl

/-- No form of an expression is told by a word that tells statements. -/
theorem ofForm?_statement {head : String}
    (tells : head ∈ Statement.heads) (parts : List Expression) : ofForm? head parts = none := by
  have symbols : ∀ head ∈ Statement.heads, UnaryOperator.ofSymbol? head = none ∧
      LogicalOperator.ofSymbol? head = none ∧ BinaryOperator.ofSymbol? head = none := by
    decide
  obtain ⟨unary, logical, binary⟩ := symbols head tells
  rw [← ofOperator?_eq_none unary logical binary parts]
  simp only [Statement.heads, List.mem_cons, List.not_mem_nil, or_false] at tells
  rcases tells with rfl | rfl | rfl | rfl | rfl | rfl | rfl | rfl | rfl <;> rfl

/-- No statement is read as an expression. -/
theorem ofShape?_statement (tree : Statement) : ofShape? tree.shape = none := by
  have form {head : String} (parts : List Shape) (tells : head ∈ Statement.heads) :
      ofShape? (.form head parts) = none := by
    have other : head ≠ "map" := by
      rintro rfl
      exact absurd tells (by decide)
    rw [ofShape?_form _ _ other]
    cases ofAll? parts with
    | none => rfl
    | some trees => exact ofForm?_statement tells trees
  cases tree with
  | declare name initial => cases initial <;> exact form _ (by decide)
  | ret keyword value => cases value <;> exact form _ (by decide)
  | _ => exact form _ (by decide)

end Expression

namespace Tree

/-- The display of a tree. -/
def display : Tree → String
  | expression tree => tree.display
  | statement tree => tree.display

/-- The tree with other labels. -/
def relabel (labels : Relabeling) : Tree → Tree
  | expression tree => expression (tree.relabel labels)
  | statement tree => statement (tree.relabel labels)

/-- The shape of a tree. -/
def shape : Tree → Shape
  | expression tree => tree.shape
  | statement tree => tree.shape

/-- A tree is displayed as its shape. -/
theorem toList_display (tree : Tree) : tree.display.toList = tree.shape.text := by
  cases tree with
  | expression tree => exact tree.toList_display
  | statement tree => exact tree.toList_display

/-- A proper tree has a proper shape. -/
theorem IsProper.shape {tree : Tree} (proper : tree.IsProper) : tree.shape.IsProper := by
  cases tree with
  | expression tree => exact (Expression.legible proper).proper
  | statement tree => exact (Statement.legible proper).proper

/-- A shape is told apart from all others by what is read back from it. -/
theorem relabel_eq_of_shape {left right : Tree} (leftProper : left.IsProper)
    (rightProper : right.IsProper) (same : left.shape = right.shape) :
    left.relabel .erased = right.relabel .erased := by
  have apart {tree : Expression} {other : Statement} (proper : (expression tree).IsProper) :
      tree.shape ≠ other.shape := by
    intro shapes
    have reads := (Expression.legible proper).reads
    rw [shapes, Expression.ofShape?_statement] at reads
    cases reads
  cases left with
  | expression left =>
      cases right with
      | expression right =>
          have reads := (Expression.legible leftProper).reads
          change left.shape = right.shape at same
          rw [same, (Expression.legible rightProper).reads] at reads
          exact congrArg expression (Option.some.inj reads).symm
      | statement right => exact absurd same (apart leftProper)
  | statement left =>
      cases right with
      | expression right => exact absurd same.symm (apart rightProper)
      | statement right =>
          have reads := (Statement.legible leftProper).reads
          change left.shape = right.shape at same
          rw [same, (Statement.legible rightProper).reads] at reads
          exact congrArg statement (Option.some.inj reads).symm

end Tree

/-- A tree at any depth of a program. -/
def Program.Has (program : Program) (tree : Tree) : Prop :=
  ∃ statement ∈ program, (Tree.statement statement).Has tree

/-- A tree in a source without mistakes is proper if its numbers are finite. -/
theorem Program.Has.isProper {source : String} {program : Program} {tree : Tree}
    (read : parse source = .ok program) (inside : program.Has tree)
    (finite : tree.HasFiniteNumbers) : tree.IsProper := by
  obtain ⟨statement, member, has⟩ := inside
  refine ⟨fun inner deeper => ?_, finite⟩
  exact allRead_of_parse read statement member inner (has.trans deeper)

/-- Trees of sources that are read without mistakes are the same up to the lines of their tokens and the numbers of
their references if their displays are the same and their numbers are finite. -/
theorem Tree.display_unambiguous {source otherSource : String} {program otherProgram : Program}
    (read : parse source = .ok program) (otherRead : parse otherSource = .ok otherProgram)
    {left right : Tree} (inside : program.Has left) (otherInside : otherProgram.Has right)
    (finite : left.HasFiniteNumbers) (otherFinite : right.HasFiniteNumbers)
    (same : left.display = right.display) : left.relabel .erased = right.relabel .erased := by
  have leftProper := inside.isProper read finite
  have rightProper := otherInside.isProper otherRead otherFinite
  apply relabel_eq_of_shape leftProper rightProper
  apply Shape.text_injective leftProper.shape rightProper.shape
  rw [← left.toList_display, ← right.toList_display, same]

/-- A number is taken from a variable on a line. -/
def Statement.difference (line : Nat) (node : NodeId) (digits : List Char) : Statement :=
  .evaluate (.binary .subtract ⟨.minus, "-", line, none⟩ (.variable node ⟨.identifier, "x", line, none⟩)
    (.constant (.number (Number.ofDigits digits))))

/-- A difference has a single number. -/
theorem Statement.difference_finite (line : Nat) (node : NodeId) {digits : List Char}
    (finite : Number.isFinite (Number.ofDigits digits) = true) :
    (Tree.statement (difference line node digits)).HasFiniteNumbers := by
  have all : (Tree.statement (difference line node digits)).All fun tree =>
      ∀ value, tree = .expression (.constant (.number value)) → Number.isFinite value = true := by
    apply Tree.all_statement
    · simp
    · simp only [difference, Statement.operands, List.mem_singleton, forall_eq]
      apply Tree.all_expression
      · simp
      · simp only [Expression.children, List.mem_cons, List.not_mem_nil, or_false,
          forall_eq_or_imp, forall_eq]
        constructor
        · exact Tree.all_expression (by simp) (by simp [Expression.children])
        · exact Tree.all_expression (by simpa using finite) (by simp [Expression.children])
    · simp [difference, Statement.children]
  exact fun value has => all _ has value rfl

/-- The second statement of a source, with more blanks and another spelling of its number, is displayed as the only
statement of another source. -/
theorem Tree.display_unambiguous_moved :
    parse "x-1" = .ok [.difference 1 0 ['1']] ∧
      parse "y\nx - 1.0" = .ok [.evaluate (.variable 0 ⟨.identifier, "y", 1, none⟩),
        .difference 2 1 ['1', '.', '0']] ∧
      (statement (.difference 1 0 ['1'])).display = (statement (.difference 2 1 ['1', '.', '0'])).display ∧
      statement (.difference 1 0 ['1']) ≠ statement (.difference 2 1 ['1', '.', '0']) ∧
      (statement (.difference 1 0 ['1'])).relabel .erased =
        (statement (.difference 2 1 ['1', '.', '0'])).relabel .erased := by
  have read : parse "x-1" = .ok [.difference 1 0 ['1']] := rfl
  have otherRead : parse "y\nx - 1.0" = .ok [.evaluate (.variable 0 ⟨.identifier, "y", 1, none⟩),
      .difference 2 1 ['1', '.', '0']] := rfl
  have number : Number.ofDigits ['1'] = Number.ofDigits ['1', '.', '0'] := by
    apply Number.ext
    decide +kernel
  have same : (statement (.difference 1 0 ['1'])).display =
      (statement (.difference 2 1 ['1', '.', '0'])).display := by
    simp [display, Statement.difference, Statement.display, Expression.display, number]
  refine ⟨read, otherRead, same, by simp [Statement.difference], ?_⟩
  apply display_unambiguous read otherRead
  · exact ⟨_, List.mem_cons_self, .refl _⟩
  · exact ⟨_, List.mem_cons_of_mem _ List.mem_cons_self, .refl _⟩
  · exact Statement.difference_finite 1 0 (by decide +kernel)
  · exact Statement.difference_finite 2 1 (by decide +kernel)
  · exact same

end OffsideScript
