import OffsideScript.Tree.Display
import OffsideScript.Proofs.Tree.Shape

namespace OffsideScript

/-- The atom that a constant is displayed as. -/
def Constant.atom : Constant → Atom
  | .nihl => .word "nihl"
  | .boolean value => .word (if value then "true" else "false")
  | .number value => .number value
  | .text value => .quoted value

namespace Shape

/-- A word as a shape. -/
def word (text : String) : Shape :=
  atom (.word text)

/-- The parts of a form follow the word that tells which form it is. -/
def form (head : String) (parts : List Shape) : Shape :=
  list (word head :: parts)

/-- A word is displayed as it is. -/
@[simp]
theorem text_word (text : String) : (word text).text = text.toList := rfl

/-- Separated parts have a blank before each. -/
theorem separated_eq (parts : List Shape) : separated parts = (parts.map text).flatMap (' ' :: ·) := by
  induction parts with
  | nil => rfl
  | cons part rest ih => simp [separated, ih]

/-- With blanks between them, texts have a blank before each but the first. -/
theorem intercalate_eq (texts : List (List Char)) :
    [' '].intercalate texts = (texts.flatMap (' ' :: ·)).drop 1 := by
  induction texts with
  | nil => rfl
  | cons first rest ih =>
      cases rest with
      | nil => simp
      | cons second rest =>
          rw [List.intercalate_cons_cons, ih]
          simp

end Shape

/-- A form is displayed as the list of its parts. -/
theorem toList_form {texts : List String} {parts : List Shape}
    (same : texts.map String.toList = parts.map Shape.text) :
    (form texts).toList = (Shape.list parts).text := by
  rw [Shape.text, Shape.separated_eq, ← same, ← Shape.intercalate_eq]
  simp [form]

mutual

/-- The nested lists that an expression is displayed as. -/
def Expression.shape : Expression → Shape
  | .constant value => .atom value.atom
  | .group inner => .form "group" [inner.shape]
  | .unary operator _ operand => .form operator.symbol [operand.shape]
  | .binary operator _ left right => .form operator.symbol [left.shape, right.shape]
  | .logical operator _ left right => .form operator.symbol [left.shape, right.shape]
  | .conditional condition whenTrue whenFalse =>
      .form "?" [condition.shape, whenTrue.shape, whenFalse.shape]
  | .variable _ name => .word name.lexeme
  | .assign _ name value => .form "=" [.word name.lexeme, value.shape]
  | .array elements => .form "array" (shapeAll elements)
  | .map entries => .form "map" (shapeEntries entries)
  | .call callee _ arguments => .form "call" (callee.shape :: shapeAll arguments)
  | .index object _ position => .form "index" [object.shape, position.shape]
  | .setIndex object _ position value =>
      .form "set-index" [object.shape, position.shape, value.shape]

def Expression.shapeAll : List Expression → List Shape
  | [] => []
  | expression :: rest => expression.shape :: shapeAll rest

def Expression.shapeEntries : List (Expression × Expression) → List Shape
  | [] => []
  | (key, value) :: rest => .list [key.shape, value.shape] :: shapeEntries rest

end

mutual

/-- The nested lists that a statement is displayed as. -/
def Statement.shape : Statement → Shape
  | .print _ value => .form "print" [value.shape]
  | .evaluate value => .form "expr" [value.shape]
  | .declare name none => .form "let" [.word name.lexeme]
  | .declare name (some initial) => .form "let" [.word name.lexeme, initial.shape]
  | .branch branches => .form "if" (shapeBranches branches)
  | .loop condition body => .form "while" [condition.shape, .form "block" (shapeAll body)]
  | .function name parameters body =>
      .form "func" (.word name.lexeme :: .list (parameters.map fun name => .word name.lexeme) ::
        shapeAll body)
  | .ret _ none => .form "ret" []
  | .ret _ (some value) => .form "ret" [value.shape]
  | .breakLoop _ => .form "break" []
  | .continueLoop _ => .form "continue" []

def Statement.shapeAll : List Statement → List Shape
  | [] => []
  | statement :: rest => statement.shape :: shapeAll rest

def Statement.shapeBranches : List (Expression × List Statement) → List Shape
  | [] => []
  | (condition, body) :: rest =>
      .list [condition.shape, .form "block" (shapeAll body)] :: shapeBranches rest

end

/-- A constant is displayed as its atom. -/
theorem Constant.toList_display (value : Constant) : value.display.toList = value.atom.text.toList := by
  cases value <;> rfl

mutual

/-- An expression is displayed as its shape. -/
theorem Expression.toList_display : ∀ tree : Expression, tree.display.toList = tree.shape.text
  | .constant value => value.toList_display
  | .group inner => toList_form (by simp [inner.toList_display])
  | .unary _ _ operand => toList_form (by simp [operand.toList_display])
  | .binary _ _ left right => toList_form (by simp [left.toList_display, right.toList_display])
  | .logical _ _ left right => toList_form (by simp [left.toList_display, right.toList_display])
  | .conditional condition whenTrue whenFalse => toList_form (by
      simp [condition.toList_display, whenTrue.toList_display, whenFalse.toList_display])
  | .variable _ _ => rfl
  | .assign _ _ value => toList_form (by simp [value.toList_display])
  | .array elements => toList_form (by simp [toList_displayAll elements])
  | .map entries => toList_form (by simp [toList_displayEntries entries])
  | .call callee _ arguments => toList_form (by
      simp [callee.toList_display, toList_displayAll arguments])
  | .index object _ position => toList_form (by
      simp [object.toList_display, position.toList_display])
  | .setIndex object _ position value => toList_form (by
      simp [object.toList_display, position.toList_display, value.toList_display])

theorem Expression.toList_displayAll : ∀ trees : List Expression,
    (displayAll trees).map String.toList = (shapeAll trees).map Shape.text
  | [] => rfl
  | tree :: rest => by simp [displayAll, shapeAll, tree.toList_display, toList_displayAll rest]

theorem Expression.toList_displayEntries : ∀ entries : List (Expression × Expression),
    (displayEntries entries).map String.toList = (shapeEntries entries).map Shape.text
  | [] => rfl
  | (key, value) :: rest => by
      have entry : (form [key.display, value.display]).toList =
          (Shape.list [key.shape, value.shape]).text :=
        toList_form (by simp [key.toList_display, value.toList_display])
      simp [displayEntries, shapeEntries, entry, toList_displayEntries rest]

end

/-- A block is displayed as a form. -/
theorem Statement.toList_block {body : List Statement}
    (same : (displayAll body).map String.toList = (shapeAll body).map Shape.text) :
    (form ("block" :: displayAll body)).toList = (Shape.form "block" (shapeAll body)).text :=
  toList_form (by simp [same])

mutual

/-- A statement is displayed as its shape. -/
theorem Statement.toList_display : ∀ tree : Statement, tree.display.toList = tree.shape.text
  | .print _ value | .evaluate value => toList_form (by simp [value.toList_display])
  | .declare _ none => toList_form (by simp)
  | .declare _ (some initial) => toList_form (by simp [initial.toList_display])
  | .branch branches => toList_form (by simp [toList_displayBranches branches])
  | .loop condition body => toList_form (by
      simp [condition.toList_display, toList_block (toList_displayAll body)])
  | .function _ parameters body => by
      have names : (form (parameters.map (·.lexeme))).toList =
          (Shape.list (parameters.map fun name => .word name.lexeme)).text :=
        toList_form (by simp)
      exact toList_form (by simp [names, toList_displayAll body])
  | .ret _ none | .breakLoop _ | .continueLoop _ => toList_form (by simp)
  | .ret _ (some value) => toList_form (by simp [value.toList_display])

theorem Statement.toList_displayAll : ∀ trees : List Statement,
    (displayAll trees).map String.toList = (shapeAll trees).map Shape.text
  | [] => rfl
  | tree :: rest => by simp [displayAll, shapeAll, tree.toList_display, toList_displayAll rest]

theorem Statement.toList_displayBranches : ∀ branches : List (Expression × List Statement),
    (displayBranches branches).map String.toList = (shapeBranches branches).map Shape.text
  | [] => rfl
  | (condition, body) :: rest => by
      have branch : (form [condition.display, form ("block" :: displayAll body)]).toList =
          (Shape.list [condition.shape, .form "block" (shapeAll body)]).text :=
        toList_form (by simp [condition.toList_display, toList_block (toList_displayAll body)])
      simp [displayBranches, shapeBranches, branch, toList_displayBranches rest]

end

end OffsideScript
