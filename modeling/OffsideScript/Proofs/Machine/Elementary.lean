import OffsideScript.Machine.Evaluate
import OffsideScript.Proofs.Outcome

namespace OffsideScript

namespace Heap

/-- The heap with other functions. -/
def withFunctions (heap : Heap) (functions : Array Closure) : Heap :=
  { heap with functions }

/-- Functions that have, in order, the names of the functions in a heap. -/
def SameNames (heap : Heap) (functions : Array Closure) : Prop :=
  functions.map (·.name.lexeme) = heap.functions.map (·.name.lexeme)

/-- A step that keeps the environments and the functions and uses nothing of the functions but their names. -/
structure Superficial {α : Type} (step : Heap → α × Heap) : Prop where
  environments : ∀ heap, (step heap).2.environments = heap.environments
  functions : ∀ heap, (step heap).2.functions = heap.functions
  names : ∀ heap functions, heap.SameNames functions →
    step (heap.withFunctions functions) =
      ((step heap).1, (step heap).2.withFunctions functions)

/-- The name of a function depends only on the list of names. -/
theorem functionName_eq (heap : Heap) (ref : FunctionRef) :
    heap.functionName ref = ((heap.functions.map (·.name.lexeme))[ref.index]?).getD "" := by
  rw [Array.getElem?_map]
  unfold functionName closure?
  cases heap.functions[ref.index]? <;> rfl

/-- Functions with the same names are named alike. -/
theorem functionName_withFunctions {heap : Heap} {functions : Array Closure}
    (same : heap.SameNames functions) (ref : FunctionRef) :
    (heap.withFunctions functions).functionName ref = heap.functionName ref := by
  rw [functionName_eq, functionName_eq, ← same]
  rfl

/-- Values are rendered alike with functions of the same names. -/
theorem renderWithin_withFunctions {heap : Heap} {functions : Array Closure}
    (same : heap.SameNames functions) (depth : Nat) :
    (heap.withFunctions functions).renderWithin depth = heap.renderWithin depth := by
  induction depth with
  | zero =>
      funext value
      cases value with
      | function ref => simp only [renderWithin, functionName_withFunctions same]
      | _ => simp only [renderWithin]
  | succ depth ih =>
      funext value
      cases value with
      | function ref => simp only [renderWithin, functionName_withFunctions same]
      | array ref =>
          simp only [renderWithin, ih]
          rfl
      | map ref =>
          simp only [renderWithin, ih]
          rfl
      | _ => simp only [renderWithin]

/-- The form of a value in messages depends only on the names of functions. -/
theorem render_withFunctions {heap : Heap} {functions : Array Closure}
    (same : heap.SameNames functions) (value : Value) :
    (heap.withFunctions functions).render value = heap.render value := by
  unfold render
  rw [renderWithin_withFunctions same]
  rfl

/-- The printed form of a value depends only on the names of functions. -/
theorem display_withFunctions {heap : Heap} {functions : Array Closure}
    (same : heap.SameNames functions) (value : Value) :
    (heap.withFunctions functions).display value = heap.display value := by
  cases value with
  | text value => rfl
  | _ => exact render_withFunctions same _

end Heap

/-- Errors that say that a statement stands where it cannot run. -/
def RuntimeError.Reason.IsMisplacement : RuntimeError.Reason → Prop
  | .retOutsideFunction => True
  | .outsideLoop _ => True
  | _ => False

namespace Exec

section Around

variable {α : Type}

/-- Runs an action on a changed machine and undoes the change however the action ends. -/
def around (enter : Machine → Machine) (leave : Machine → Machine → Machine) (action : Exec α) :
    Exec α :=
  fun machine => mapState (leave machine) (action (enter machine))

/-- Another environment is entered and left. -/
theorem within_eq_around (environment : EnvironmentRef) (action : Exec α) :
    within environment action = around (fun machine => { machine with environment })
      (fun machine after => { after with environment := machine.environment }) action := by
  funext machine
  unfold within around
  dsimp only
  cases action { machine with environment } <;> rfl

/-- One more loop is entered and left. -/
theorem inLoop_eq_around (action : Exec α) :
    inLoop action = around (fun machine => { machine with loopDepth := machine.loopDepth + 1 })
      (fun _ after => { after with loopDepth := after.loopDepth - 1 }) action := by
  funext machine
  unfold inLoop around
  dsimp only
  cases action { machine with loopDepth := machine.loopDepth + 1 } <;> rfl

/-- One more call is entered and left. -/
theorem inCall_eq_around (action : Exec α) :
    inCall action =
      around (fun machine => { machine with callDepth := machine.callDepth + 1, loopDepth := 0 })
        (fun machine after =>
          { after with callDepth := after.callDepth - 1, loopDepth := machine.loopDepth }) action := by
  funext machine
  unfold inCall around
  dsimp only
  cases action { machine with callDepth := machine.callDepth + 1, loopDepth := 0 } <;> rfl

end Around

/-- Actions, as functions of the token that their errors point to, which are put together from steps of
the heap, errors, output and calls of builtins. -/
inductive Elementary : {α : Type} → (Token → Exec α) → Prop where
  | fail {α : Type} (reason : RuntimeError.Reason) (placed : ¬reason.IsMisplacement) :
      Elementary fun token => (fail token reason : Exec α)
  | bind {α β : Type} {action : Token → Exec α} {next : α → Token → Exec β}
      (first : Elementary action) (second : ∀ value, Elementary (next value)) :
      Elementary fun token => action token >>= fun value => next value token
  | heap {α : Type} (step : Heap → α × Heap) (superficial : Heap.Superficial step) :
      Elementary fun _ => modifyGet fun machine =>
        ((step machine.host.heap).1, { machine with host.heap := (step machine.host.heap).2 })
  | print (value : Value) : Elementary fun token => print token value
  | callBuiltin (ref : BuiltinRef) (arguments : List Value) :
      Elementary fun token => callBuiltin token ref arguments

/-- Elementary actions that write no output. -/
inductive Soundless : {α : Type} → (Token → Exec α) → Prop where
  | fail {α : Type} (reason : RuntimeError.Reason) (placed : ¬reason.IsMisplacement) :
      Soundless fun token => (fail token reason : Exec α)
  | bind {α β : Type} {action : Token → Exec α} {next : α → Token → Exec β}
      (first : Soundless action) (second : ∀ value, Soundless (next value)) :
      Soundless fun token => action token >>= fun value => next value token
  | heap {α : Type} (step : Heap → α × Heap) (superficial : Heap.Superficial step) :
      Soundless fun _ => modifyGet fun machine =>
        ((step machine.host.heap).1, { machine with host.heap := (step machine.host.heap).2 })
  | callBuiltin (ref : BuiltinRef) (arguments : List Value) :
      Soundless fun token => callBuiltin token ref arguments

/-- What writes no output is elementary. -/
theorem Soundless.elementary {α : Type} {action : Token → Exec α} (soundless : Soundless action) :
    Elementary action := by
  induction soundless with
  | fail reason placed => exact .fail reason placed
  | bind _ _ first second => exact .bind first second
  | heap step superficial => exact .heap step superficial
  | callBuiltin ref arguments => exact .callBuiltin ref arguments

namespace Soundless

variable {α : Type}

theorem pure (value : α) : Soundless fun _ => (pure value : Exec α) :=
  .heap (fun heap => (value, heap)) ⟨fun _ => rfl, fun _ => rfl, fun _ _ _ => rfl⟩

/-- What depends on the heap but not on what its functions do may be looked up. -/
theorem view (look : Heap → α)
    (names : ∀ heap functions, heap.SameNames functions →
      look (heap.withFunctions functions) = look heap) :
    Soundless fun _ => (do return look (← get).heap : Exec α) :=
  .heap (fun heap => (look heap, heap)) ⟨fun _ => rfl, fun _ => rfl, fun heap functions same => by
    rw [names heap functions same]⟩

theorem render (value : Value) : Soundless fun _ => Exec.render value :=
  .view (·.render value) fun _ _ same => Heap.render_withFunctions same value

theorem newArray (elements : Array Value) : Soundless fun _ => Exec.newArray elements :=
  .heap (·.newArray elements) ⟨fun _ => rfl, fun _ => rfl, fun _ _ _ => rfl⟩

theorem newMap (map : OrderedMap Value Value) : Soundless fun _ => Exec.newMap map :=
  .heap (·.newMap map) ⟨fun _ => rfl, fun _ => rfl, fun _ _ _ => rfl⟩

/-- A unary operator writes no output. -/
theorem unary (operator : UnaryOperator) (operand : Value) :
    Soundless fun token => Exec.unary operator token operand := by
  cases operator with
  | not => exact .pure _
  | negate =>
      cases operand with
      | number value => exact .pure _
      | _ => exact .fail _ not_false

/-- Arithmetic writes no output. -/
theorem arithmetic (left right : Value) (apply : Number → Number → Value) :
    Soundless fun token => Exec.arithmetic token left right apply := by
  unfold Exec.arithmetic
  split
  · exact .pure _
  · exact .fail _ not_false

/-- A remainder writes no output. -/
theorem remainder (left right : Value) :
    Soundless fun token => Exec.remainder token left right := by
  unfold Exec.remainder
  split
  · split
    · exact .pure _
    · exact .fail _ not_false
  · exact .fail _ not_false

/-- Joining texts or arrays writes no output. -/
theorem concat (left right : Value) : Soundless fun token => Exec.concat token left right := by
  unfold Exec.concat
  split
  · exact .pure _
  · rename_i left right
    exact .heap (fun heap => heap.newArray (heap.array left ++ heap.array right))
      ⟨fun _ => rfl, fun _ => rfl, fun _ _ _ => rfl⟩
  · exact .fail _ not_false

/-- A binary operator writes no output. -/
theorem binary (operator : BinaryOperator) (left right : Value) :
    Soundless fun token => Exec.binary operator token left right := by
  cases operator with
  | sequence | equal | notEqual => exact .pure _
  | concat => exact .concat left right
  | remainder => exact .remainder left right
  | _ => exact .arithmetic left right _

/-- A test for a container writes no output. -/
theorem expectContainer (object : Value) :
    Soundless fun token => Exec.expectContainer token object := by
  unfold Exec.expectContainer
  split
  · exact .pure _
  · exact .pure _
  · exact .bind (.render _) fun _ => .fail _ not_false

/-- A test for a position writes no output. -/
theorem arrayPosition (index : Value) (length : Nat) :
    Soundless fun token => Exec.arrayPosition token index length := by
  have invalid : Soundless fun token =>
      (do Exec.fail token (.invalidIndex (← Exec.render index)) : Exec Nat) :=
    .bind (.render index) fun _ => .fail _ not_false
  unfold Exec.arrayPosition
  split
  · split
    · split
      · exact invalid
      · split
        · exact .pure _
        · exact .fail _ not_false
    · exact invalid
  · exact invalid

theorem arrayLength (ref : ArrayRef) : Soundless fun _ => Exec.arrayLength ref :=
  .view (fun heap => (heap.array ref).size) fun _ _ _ => rfl

/-- Reading an element writes no output. -/
theorem element (container : Container) (index : Value) :
    Soundless fun token => Exec.element token container index := by
  cases container with
  | array ref =>
      refine .bind (.arrayLength ref) fun length => .bind (.arrayPosition index length)
        fun position => ?_
      exact .view (fun heap => (heap.array ref).getD position .nihl) fun _ _ _ => rfl
  | map ref => exact .view (fun heap => ((heap.map ref).get? index).getD .nihl) fun _ _ _ => rfl

/-- A test for an element writes no output. -/
theorem checkElement (container : Container) (index : Value) :
    Soundless fun token => Exec.checkElement token container index := by
  cases container with
  | array ref =>
      exact .bind (.arrayLength ref) fun length => .bind (.arrayPosition index length)
        fun _ => .pure _
  | map ref => exact .pure _

/-- Setting an element writes no output. -/
theorem setElement (container : Container) (index value : Value) :
    Soundless fun token => Exec.setElement token container index value := by
  cases container with
  | array ref =>
      refine .bind (.arrayLength ref) fun length => .bind (.arrayPosition index length)
        fun position => .bind ?_ fun _ => .pure _
      exact .heap (fun heap => ((), heap.setElement ref position value))
        ⟨fun _ => rfl, fun _ => rfl, fun _ _ _ => rfl⟩
  | map ref =>
      refine .bind ?_ fun _ => .pure _
      exact .heap (fun heap => ((), heap.insertEntry ref index value))
        ⟨fun _ => rfl, fun _ => rfl, fun _ _ _ => rfl⟩

/-- The test for the number of arguments writes no output. -/
theorem checkArity (expected found : Nat) :
    Soundless fun token => Exec.checkArity token expected found := by
  unfold Exec.checkArity
  split
  · exact .pure _
  · exact .fail _ not_false

end Soundless

namespace Elementary

/-- A unary operator is elementary. -/
theorem unary (operator : UnaryOperator) (operand : Value) :
    Elementary fun token => Exec.unary operator token operand :=
  (Soundless.unary operator operand).elementary

/-- A binary operator is elementary. -/
theorem binary (operator : BinaryOperator) (left right : Value) :
    Elementary fun token => Exec.binary operator token left right :=
  (Soundless.binary operator left right).elementary

/-- A test for a container is elementary. -/
theorem expectContainer (object : Value) :
    Elementary fun token => Exec.expectContainer token object :=
  (Soundless.expectContainer object).elementary

/-- Reading an element is elementary. -/
theorem element (container : Container) (index : Value) :
    Elementary fun token => Exec.element token container index :=
  (Soundless.element container index).elementary

/-- A test for an element is elementary. -/
theorem checkElement (container : Container) (index : Value) :
    Elementary fun token => Exec.checkElement token container index :=
  (Soundless.checkElement container index).elementary

/-- Setting an element is elementary. -/
theorem setElement (container : Container) (index value : Value) :
    Elementary fun token => Exec.setElement token container index value :=
  (Soundless.setElement container index value).elementary

/-- The test for the number of arguments is elementary. -/
theorem checkArity (expected found : Nat) :
    Elementary fun token => Exec.checkArity token expected found :=
  (Soundless.checkArity expected found).elementary

end Elementary

end Exec

end OffsideScript
