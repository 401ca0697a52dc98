/-
This file shows that a program with other labels runs as the program does: the same steps on a machine
whose functions have the other labels, as long as both tables give the references the same distances.
-/

import OffsideScript.Proofs.Grammar.Relabel
import OffsideScript.Proofs.Machine.Elementary
import OffsideScript.Proofs.Machine.Mirror

namespace OffsideScript

/-- The host with other functions in its heap. -/
def Host.withFunctions (host : Host) (functions : Array Closure) : Host :=
  { host with heap := host.heap.withFunctions functions }

namespace Builtin

/-- An indifferent action does the same whatever the functions are. -/
def Indifferent {α : Type} (action : EStateM BuiltinError Host α) : Prop :=
  ∀ host functions, action (host.withFunctions functions) =
    mapState (·.withFunctions functions) (action host)

namespace Indifferent

variable {α β : Type}

theorem pure (value : α) : Indifferent (pure value) := fun _ _ => rfl

/-- An error does not look at the functions. -/
theorem throw (error : BuiltinError) :
    Indifferent (throw error : EStateM BuiltinError Host α) := fun _ _ => rfl

/-- Indifferent actions are indifferent one after another. -/
theorem bind {action : EStateM BuiltinError Host α} {next : α → EStateM BuiltinError Host β}
    (first : Indifferent action) (second : ∀ value, Indifferent (next value)) :
    Indifferent (action >>= next) := by
  intro host functions
  have started := first host functions
  cases ran : action host with
  | ok value middle =>
      rw [ran] at started
      rw [bind_of_ok ran, bind_of_ok started]
      exact second value middle functions
  | error failure middle =>
      rw [ran] at started
      rw [bind_of_error ran, bind_of_error started]
      rfl

/-- Looking at the host is indifferent if what follows does not use the functions. -/
theorem get {next : Host → EStateM BuiltinError Host α}
    (hidden : ∀ host functions, next (host.withFunctions functions) = next host)
    (second : ∀ host, Indifferent (next host)) : Indifferent (do next (← get)) := by
  intro host functions
  rw [get_bind, get_bind, hidden]
  exact second host host functions

end Indifferent

/-- A test for a text does not look at the functions. -/
theorem expectText_indifferent (builtin argument : String) (value : Value) :
    Indifferent (expectText builtin argument value) := by
  cases value with
  | text value => exact .pure value
  | _ => exact .throw _

/-- A change of a file does not look at the functions. -/
theorem changeFile_indifferent (builtin : String)
    (change : FileSystem → String → ByteArray → Except FileError FileSystem)
    (path content : Value) : Indifferent (changeFile builtin change path content) := by
  refine (expectText_indifferent _ _ _).bind fun path =>
    (expectText_indifferent _ _ _).bind fun content => ?_
  intro host functions
  have files : (host.withFunctions functions).files = host.files := rfl
  rw [get_bind, get_bind, files]
  cases change host.files path content.toUTF8 <;> rfl

/-- No builtin that a machine starts with looks at a function. -/
theorem standard_indifferent :
    ∀ builtin ∈ standard, ∀ arguments, Indifferent (builtin.action arguments) := by
  intro builtin member arguments
  simp only [standard, List.mem_cons, List.not_mem_nil, or_false] at member
  rcases member with rfl | rfl | rfl | rfl | rfl | rfl
  · dsimp only [len]
    split
    · exact .pure _
    · exact .get (fun _ _ => rfl) fun _ => .pure _
    · exact .throw _
  · exact Indifferent.pure _
  · exact fun _ _ => rfl
  · refine (expectText_indifferent _ _ _).bind fun path => .get (fun _ _ => rfl) fun host => ?_
    split
    · exact .pure _
    · exact .pure _
    · exact .throw _
  · exact changeFile_indifferent _ _ _ _
  · exact changeFile_indifferent _ _ _ _

end Builtin

/-- The function with other labels. -/
def Closure.relabel (labels : Relabeling) (closure : Closure) : Closure :=
  ⟨closure.name.relabel labels, closure.parameters.map (Token.relabel labels),
    Statement.relabelAll labels closure.body, closure.environment⟩

/-- The bindings of a call do not depend on the labels. -/
theorem Closure.bindings_relabel (labels : Relabeling) (closure : Closure) (arguments : List Value) :
    (closure.relabel labels).bindings arguments = closure.bindings arguments := by
  unfold Closure.bindings
  change ((closure.parameters.map (Token.relabel labels)).zip arguments).foldl _ [] = _
  rw [List.zip_map_left, List.foldl_map]
  rfl

/-- The error on its new line. -/
def RuntimeError.relabel (labels : Relabeling) (error : RuntimeError) : RuntimeError :=
  { error with line := labels.line error.line }

/-- The halt on its new line. -/
def Halt.relabel (labels : Relabeling) : Halt → Halt
  | .error found => .error (found.relabel labels)
  | .outOfFuel => .outOfFuel

/-- Labels that replace those of a program, with the tables for the old and the new labels. -/
structure Transfer where
  labels : Relabeling
  old : Distances
  new : Distances

namespace Transfer

variable (transfer : Transfer)

/-- References whose distances both tables give. -/
def Keeps (nodes : List NodeId) : Prop :=
  ∀ node ∈ nodes, transfer.new.find? (transfer.labels.node node) = transfer.old.find? node

/-- The functions with the new labels. -/
def functions (closures : Array Closure) : Array Closure :=
  closures.map (Closure.relabel transfer.labels)

/-- The same machine with new labels in its functions and the table for them. -/
def machine (machine : Machine) : Machine :=
  { machine with
    host := machine.host.withFunctions (transfer.functions machine.host.heap.functions)
    locator := transfer.new.locator }

/-- The outcome with the new labels. -/
def outcome {α : Type} : EStateM.Result Halt Machine α → EStateM.Result Halt Machine α
  | .ok value machine => .ok value (transfer.machine machine)
  | .error halt machine => .error (halt.relabel transfer.labels) (transfer.machine machine)

/-- Machines with the old table and with functions whose references keep their distances. -/
structure Admits (machine : Machine) : Prop where
  locator : machine.locator = transfer.old.locator
  tame : machine.Tame
  library : ∀ (slot : Nat) (builtin : Builtin), machine.library[slot]? = some builtin →
    ∀ arguments, Builtin.Indifferent (builtin.action arguments)
  closures : ∀ closure ∈ machine.heap.functions, transfer.Keeps (Statement.nodesAll closure.body)

end Transfer

namespace Transfer

variable {transfer : Transfer}

/-- Functions keep their names. -/
theorem sameNames (heap : Heap) : heap.SameNames (transfer.functions heap.functions) := by
  unfold Heap.SameNames functions
  rw [Array.map_map]
  rfl

/-- A machine with the same table, functions and builtins is admitted too. -/
theorem Admits.of_same {before after : Machine} (admits : transfer.Admits before)
    (locator : after.locator = before.locator) (library : after.library = before.library)
    (functions : after.heap.functions = before.heap.functions) : transfer.Admits after := by
  refine ⟨locator.trans admits.locator, fun slot builtin found => ?_, fun slot builtin found => ?_,
    fun closure member => ?_⟩
  · exact admits.tame slot builtin (library ▸ found)
  · exact admits.library slot builtin (library ▸ found)
  · exact admits.closures closure (functions ▸ member)

end Transfer

namespace Exec

variable {α β : Type} {transfer : Transfer}

/-- One action does with the new labels what another one does with the old ones. -/
structure Natural (transfer : Transfer) (plain moved : Exec α) : Prop where
  same : ∀ machine, transfer.Admits machine →
    moved (transfer.machine machine) = transfer.outcome (plain machine)
  admits : ∀ machine, transfer.Admits machine → transfer.Admits (finalState (plain machine))

namespace Natural

theorem pure (value : α) : Natural transfer (pure value) (pure value) :=
  ⟨fun _ _ => rfl, fun _ admits => admits⟩

/-- A lack of fuel is the same with the new labels. -/
theorem outOfFuel : Natural transfer (throw .outOfFuel : Exec α) (throw .outOfFuel) :=
  ⟨fun _ _ => rfl, fun _ admits => admits⟩

/-- An error is at the new line. -/
theorem fail (token : Token) (reason : RuntimeError.Reason) :
    Natural transfer (fail token reason : Exec α) (fail (token.relabel transfer.labels) reason) :=
  ⟨fun _ _ => rfl, fun _ admits => admits⟩

/-- Actions that do the same do so one after another. -/
theorem bind {plain moved : Exec α} {next movedNext : α → Exec β}
    (first : Natural transfer plain moved)
    (second : ∀ value, Natural transfer (next value) (movedNext value)) :
    Natural transfer (plain >>= next) (moved >>= movedNext) := by
  constructor
  · intro machine admits
    have started := first.same machine admits
    have kept := first.admits machine admits
    cases ran : plain machine with
    | ok value middle =>
        rw [ran] at started kept
        rw [bind_of_ok ran, bind_of_ok started]
        exact (second value).same middle kept
    | error halt middle =>
        rw [ran] at started
        rw [bind_of_error ran, bind_of_error started]
        rfl
  · intro machine admits
    have kept := first.admits machine admits
    cases ran : plain machine with
    | ok value middle =>
        rw [ran] at kept
        rw [bind_of_ok ran]
        exact (second value).admits middle kept
    | error halt middle =>
        rw [ran] at kept
        rw [bind_of_error ran]
        exact kept

/-- An action may look at the machine. -/
theorem get {plain moved : Machine → Exec α}
    (natural : ∀ machine, transfer.Admits machine →
      Natural transfer (plain machine) (moved (transfer.machine machine))) :
    Natural transfer (do plain (← get)) (do moved (← get)) :=
  ⟨fun machine admits => (natural machine admits).same machine admits,
    fun machine admits => (natural machine admits).admits machine admits⟩

/-- Steps of the heap that use nothing of the functions but their names. -/
theorem modifyHeap {step : Heap → α × Heap} (superficial : Heap.Superficial step) :
    Natural transfer
      (modifyGet fun machine =>
        ((step machine.host.heap).1, { machine with host.heap := (step machine.host.heap).2 }))
      (modifyGet fun machine =>
        ((step machine.host.heap).1, { machine with host.heap := (step machine.host.heap).2 })) := by
  constructor
  · intro machine admits
    have commutes := superficial.names machine.host.heap _ (transfer.sameNames machine.host.heap)
    have kept := superficial.functions machine.host.heap
    change EStateM.Result.ok
      (step (machine.host.heap.withFunctions (transfer.functions machine.host.heap.functions))).1 _ = _
    simp only [Transfer.machine, Host.withFunctions, commutes]
    change _ = EStateM.Result.ok (step machine.host.heap).1 _
    simp only [Transfer.machine, Host.withFunctions, kept]
  · intro machine admits
    exact admits.of_same rfl rfl (superficial.functions machine.host.heap)

/-- Printing does the same at the new line. -/
theorem print (token : Token) (value : Value) :
    Natural transfer (print token value) (print (token.relabel transfer.labels) value) := by
  constructor
  · intro machine admits
    have shown : (transfer.machine machine).heap.display value = machine.heap.display value :=
      Heap.display_withFunctions (transfer.sameNames machine.host.heap) value
    have sink : (transfer.machine machine).sink = machine.sink := rfl
    unfold Exec.print
    simp only [shown, sink]
    rcases machine.sink.write (machine.heap.display value ++ "\n") with ⟨written, after⟩
    cases written <;> rfl
  · intro machine admits
    unfold Exec.print
    dsimp only
    split <;> exact admits.of_same rfl rfl rfl

/-- A tame builtin that does not look at the functions does the same. -/
theorem perform (token : Token) {builtin : Builtin} (arguments : List Value) (tame : builtin.Tame)
    (indifferent : Builtin.Indifferent (builtin.action arguments)) :
    Natural transfer (perform token builtin arguments)
      (perform (token.relabel transfer.labels) builtin arguments) := by
  constructor
  · intro machine admits
    have moved := indifferent machine.host (transfer.functions machine.host.heap.functions)
    have kept := (tame arguments machine.host).2
    have host : (transfer.machine machine).host =
        machine.host.withFunctions (transfer.functions machine.host.heap.functions) := rfl
    unfold Exec.perform
    rw [host, moved]
    cases ran : builtin.action arguments machine.host <;>
      (rw [ran] at kept; rw [← kept]; rfl)
  · intro machine admits
    have kept := perform_steady token builtin arguments machine tame
    exact admits.of_same kept.locator kept.library kept.functions

/-- The call of a builtin does the same at the new line. -/
theorem callBuiltin (token : Token) (ref : BuiltinRef) (arguments : List Value) :
    Natural transfer (callBuiltin token ref arguments)
      (callBuiltin (token.relabel transfer.labels) ref arguments) := by
  have arity : Natural transfer (checkArity token ref.arity arguments.length)
      (checkArity (token.relabel transfer.labels) ref.arity arguments.length) := by
    unfold checkArity
    split
    · exact .pure _
    · exact .fail _ _
  refine arity.bind fun _ => .get fun machine admits => ?_
  have library : (transfer.machine machine).library = machine.library := rfl
  rw [library]
  cases found : machine.library[ref.slot]? with
  | none => exact .pure _
  | some builtin =>
      exact .perform token arguments (admits.tame ref.slot builtin found)
        (admits.library ref.slot builtin found arguments)

/-- A change of the control state that is undone at the end is made alike. -/
theorem around {plain moved : Exec α} {enter : Machine → Machine}
    {leave : Machine → Machine → Machine} (inner : Natural transfer plain moved)
    (entering : ∀ machine, enter (transfer.machine machine) = transfer.machine (enter machine))
    (leaving : ∀ machine after, leave (transfer.machine machine) (transfer.machine after) =
      transfer.machine (leave machine after))
    (entered : ∀ machine, transfer.Admits machine → transfer.Admits (enter machine))
    (left : ∀ machine after, transfer.Admits after → transfer.Admits (leave machine after)) :
    Natural transfer (around enter leave plain) (around enter leave moved) := by
  unfold Exec.around
  constructor
  · intro machine admits
    have same := inner.same (enter machine) (entered machine admits)
    rw [entering, same]
    cases plain (enter machine) with
    | ok value after => exact congrArg (EStateM.Result.ok value) (leaving machine after)
    | error halt after => exact congrArg (EStateM.Result.error _) (leaving machine after)
  · intro machine admits
    have kept := inner.admits (enter machine) (entered machine admits)
    cases ran : plain (enter machine) <;>
      (rw [ran] at kept; exact left machine _ kept)

/-- A setting is entered and left alike. -/
theorem inside {plain moved : Exec α} (setting : Setting) (inner : Natural transfer plain moved) :
    Natural transfer (setting.around plain) (setting.around moved) := by
  cases setting <;>
    exact inner.around (fun _ => rfl) (fun _ _ => rfl) (fun _ admits => admits.of_same rfl rfl rfl)
      (fun _ _ admits => admits.of_same rfl rfl rfl)

/-- A function is made with the new labels. -/
theorem newFunction (name : Token) (parameters : List Token) {body : List Statement}
    (keeps : transfer.Keeps (Statement.nodesAll body)) :
    Natural transfer (newFunction name parameters body)
      (newFunction (name.relabel transfer.labels) (parameters.map (Token.relabel transfer.labels))
        (Statement.relabelAll transfer.labels body)) := by
  constructor
  · intro machine admits
    have count : (transfer.functions machine.host.heap.functions).size =
        machine.host.heap.functions.size := Array.size_map
    have pushed (closure : Closure) :
        transfer.functions (machine.host.heap.functions.push closure) =
          (transfer.functions machine.host.heap.functions).push (closure.relabel transfer.labels) :=
      Array.map_push
    change EStateM.Result.ok
      (Value.function ⟨(transfer.functions machine.host.heap.functions).size⟩) _ = _
    change _ = EStateM.Result.ok (Value.function ⟨machine.host.heap.functions.size⟩) _
    rw [count]
    simp only [Transfer.machine, Host.withFunctions, Heap.withFunctions, pushed]
    rfl
  · intro machine admits
    refine ⟨admits.locator, admits.tame, admits.library, fun closure member => ?_⟩
    rcases Array.mem_push.mp member with known | rfl
    · exact admits.closures closure known
    · exact keeps

/-- Environments have no labels. -/
theorem newEnvironment (bindings : Bindings) (parent : EnvironmentRef) :
    Natural transfer (newEnvironment bindings parent) (newEnvironment bindings parent) :=
  ⟨fun _ _ => rfl, fun _ admits => admits.of_same rfl rfl rfl⟩

/-- References with the same distance in both tables find the same environment. -/
theorem place_eq {machine : Machine} (admits : transfer.Admits machine) {node : NodeId}
    (keeps : transfer.new.find? (transfer.labels.node node) = transfer.old.find? node)
    (name : String) :
    (transfer.machine machine).place (transfer.machine machine).locator
      (transfer.labels.node node) name = machine.place machine.locator node name := by
  have climbs (ref : EnvironmentRef) (hops : Nat) :
      (transfer.machine machine).heap.ancestor? ref hops = machine.heap.ancestor? ref hops := by
    induction hops generalizing ref with
    | zero => rfl
    | succ hops ih =>
        unfold Heap.ancestor?
        have outside : (transfer.machine machine).heap.parent? ref = machine.heap.parent? ref := rfl
        rw [outside]
        exact congrArg _ (funext ih)
  have found : transfer.new.locator (transfer.machine machine).heap machine.environment machine.globals
      (transfer.labels.node node) name =
        machine.locator machine.heap machine.environment machine.globals node name := by
    rw [admits.locator]
    unfold Distances.locator
    rw [keeps]
    cases transfer.old.find? node with
    | none => rfl
    | some hops => exact climbs machine.environment hops
  unfold Machine.place
  exact congrArg _ found

/-- A variable is read alike if both tables give its distance. -/
theorem read {node : NodeId} (name : Token)
    (keeps : transfer.new.find? (transfer.labels.node node) = transfer.old.find? node) :
    Natural transfer (read node name)
      (read (transfer.labels.node node) (name.relabel transfer.labels)) := by
  constructor
  · intro machine admits
    have place := place_eq admits keeps name.lexeme
    have shown : (name.relabel transfer.labels).lexeme = name.lexeme := rfl
    have bound : ((transfer.machine machine).heap.get? · name.lexeme) =
        (machine.heap.get? · name.lexeme) := rfl
    rw [read_eq, read_eq, shown, place, bound]
    cases (machine.place machine.locator node name.lexeme).bind
      (machine.heap.get? · name.lexeme) <;> rfl
  · intro machine admits
    rw [read_eq]
    split <;> exact admits

/-- A variable is assigned alike if both tables give its distance. -/
theorem assign {node : NodeId} (name : Token) (value : Value)
    (keeps : transfer.new.find? (transfer.labels.node node) = transfer.old.find? node) :
    Natural transfer (assign node name value)
      (assign (transfer.labels.node node) (name.relabel transfer.labels) value) := by
  constructor
  · intro machine admits
    have place := place_eq admits keeps name.lexeme
    have shown : (name.relabel transfer.labels).lexeme = name.lexeme := rfl
    rw [assign_eq, assign_eq, shown, place]
    cases machine.place machine.locator node name.lexeme <;> rfl
  · intro machine admits
    rw [assign_eq]
    split
    · exact admits.of_same rfl rfl rfl
    · exact admits

end Natural

/-- Elementary actions do the same at the new line. -/
theorem Elementary.natural {action : Token → Exec α} (elementary : Elementary action)
    (token : Token) : Natural transfer (action token) (action (token.relabel transfer.labels)) := by
  induction elementary with
  | fail reason _ => exact .fail token reason
  | bind _ _ first second => exact first.bind second
  | heap step superficial => exact .modifyHeap superficial
  | print value => exact .print token value
  | callBuiltin ref arguments => exact .callBuiltin token ref arguments

end Exec

variable {α β : Type}

@[simp] theorem Token.relabel_lexeme (labels : Relabeling) (token : Token) :
    (token.relabel labels).lexeme = token.lexeme := rfl

/-- The primitive action with other labels. -/
def Primitive.relabel (labels : Relabeling) : {α : Type} → Primitive α → Primitive α
  | _, .fail token reason => .fail (token.relabel labels) reason
  | _, .unary operator token operand => .unary operator (token.relabel labels) operand
  | _, .binary operator token left right => .binary operator (token.relabel labels) left right
  | _, .read node name => .read (labels.node node) (name.relabel labels)
  | _, .assign node name value => .assign (labels.node node) (name.relabel labels) value
  | _, .expectContainer bracket object => .expectContainer (bracket.relabel labels) object
  | _, .element bracket container index => .element (bracket.relabel labels) container index
  | _, .checkElement bracket container index =>
      .checkElement (bracket.relabel labels) container index
  | _, .setElement bracket container index value =>
      .setElement (bracket.relabel labels) container index value
  | _, .callBuiltin closing ref arguments => .callBuiltin (closing.relabel labels) ref arguments
  | _, .checkArity closing expected found => .checkArity (closing.relabel labels) expected found
  | _, .newFunction name parameters body =>
      .newFunction (name.relabel labels) (parameters.map (Token.relabel labels))
        (Statement.relabelAll labels body)
  | _, .print keyword value => .print (keyword.relabel labels) value
  | _, primitive => primitive

/-- The request with other labels. -/
def Request.relabel (labels : Relabeling) : {α : Type} → Request α → Request α
  | _, .evaluate expression => .evaluate (expression.relabel labels)
  | _, .logical operator left right => .logical operator left (right.relabel labels)
  | _, .evaluateAll expressions => .evaluateAll (Expression.relabelAll labels expressions)
  | _, .evaluateEntries map entries =>
      .evaluateEntries map (Expression.relabelEntries labels entries)
  | _, .call closing callee arguments => .call (closing.relabel labels) callee arguments
  | _, .execute statement => .execute (statement.relabel labels)
  | _, .executeAll statements => .executeAll (Statement.relabelAll labels statements)
  | _, .executeBody body => .executeBody (Statement.relabelAll labels body)
  | _, .executeBranches branches => .executeBranches (Statement.relabelBranches labels branches)
  | _, .repeatBody condition body =>
      .repeatBody (condition.relabel labels) (Statement.relabelAll labels body)

/-- The nodes of what is asked for. -/
def Request.nodes : {α : Type} → Request α → List NodeId
  | _, .evaluate expression => expression.nodes
  | _, .logical _ _ right => right.nodes
  | _, .evaluateAll expressions => Expression.nodesAll expressions
  | _, .evaluateEntries _ entries => Expression.nodesEntries entries
  | _, .call _ _ _ => []
  | _, .execute statement => statement.nodes
  | _, .executeAll statements => Statement.nodesAll statements
  | _, .executeBody body => Statement.nodesAll body
  | _, .executeBranches branches => Statement.nodesBranches branches
  | _, .repeatBody condition body => condition.nodes ++ Statement.nodesAll body

/-- The call of a function runs what is not in the text of the request. -/
def Request.isCall : {α : Type} → Request α → Bool
  | _, .call _ (.function _) _ => true
  | _, _ => false

namespace Code

/-- The code with other labels. -/
def relabel (labels : Relabeling) : Code α → Code α
  | .done value => .done value
  | .act primitive next => .act (primitive.relabel labels) fun value => (next value).relabel labels
  | .ask setting request next =>
      .ask setting (request.relabel labels) fun value => (next value).relabel labels

variable (labels : Relabeling)

@[simp] theorem relabel_pure (value : α) : (pure value : Code α).relabel labels = pure value := rfl

@[simp] theorem relabel_perform (primitive : Primitive α) :
    (perform primitive).relabel labels = perform (primitive.relabel labels) := rfl

@[simp] theorem relabel_requestIn (setting : Setting) (asked : Request α) :
    (requestIn setting asked).relabel labels = requestIn setting (asked.relabel labels) := rfl

@[simp] theorem relabel_request (asked : Request α) :
    (request asked).relabel labels = request (asked.relabel labels) := rfl

@[simp] theorem relabel_ite (condition : Prop) [Decidable condition] (first second : Code α) :
    (if condition then first else second).relabel labels =
      if condition then first.relabel labels else second.relabel labels :=
  apply_ite (relabel labels) condition first second

@[simp] theorem relabel_bind (code : Code α) (next : α → Code β) :
    (code >>= next).relabel labels =
      code.relabel labels >>= fun value => (next value).relabel labels := by
  change (code.bind next).relabel labels = (code.relabel labels).bind _
  induction code with
  | done value => rfl
  | act primitive rest ih => simp only [bind, relabel, ih]
  | ask setting request rest ih => simp only [bind, relabel, ih]

end Code

/-- The code of a request with other labels is its code with other labels. -/
theorem Request.code_relabel (labels : Relabeling) (request : Request α)
    (isPlain : request.isCall = false) :
    (request.relabel labels).code = request.code.relabel labels := by
  cases request with
  | evaluate expression =>
      cases expression <;> simp [code, relabel, Expression.relabel, Primitive.relabel]
  | logical operator left right => cases operator <;> cases left <;> simp [code, relabel]
  | evaluateAll expressions => cases expressions <;> simp [code, relabel, Expression.relabelAll]
  | evaluateEntries map entries =>
      cases entries <;> simp [code, relabel, Expression.relabelEntries]
  | call closing callee arguments =>
      cases callee with
      | function ref => cases isPlain
      | _ => simp [code, relabel, Primitive.relabel]
  | execute statement =>
      cases statement with
      | declare name initial =>
          cases initial <;> simp [code, relabel, Statement.relabel, Primitive.relabel]
      | ret keyword value =>
          cases value <;> simp [code, relabel, Statement.relabel, Primitive.relabel]
      | _ => simp [code, relabel, Statement.relabel, Primitive.relabel]
  | executeAll statements =>
      cases statements with
      | nil => rfl
      | cons statement rest =>
          simp only [code, relabel, Statement.relabelAll, Code.relabel_bind, Code.relabel_request]
          congr 1
          funext flow
          cases flow <;> simp [relabel]
  | executeBody body => simp [code, relabel, Primitive.relabel]
  | executeBranches branches => cases branches <;> simp [code, relabel, Statement.relabelBranches]
  | repeatBody condition body =>
      simp only [code, relabel, Code.relabel_bind, Code.relabel_request, Code.relabel_ite]
      congr 1
      funext value
      congr 1
      congr 1
      funext flow
      cases flow <;> simp [relabel]

namespace Transfer

/-- Actions that do the same with the new labels. What a function is has other labels. -/
def Permits (transfer : Transfer) : {α : Type} → Primitive α → Prop
  | _, .read node _ => transfer.new.find? (transfer.labels.node node) = transfer.old.find? node
  | _, .assign node _ _ =>
      transfer.new.find? (transfer.labels.node node) = transfer.old.find? node
  | _, .newFunction _ _ body => transfer.Keeps (Statement.nodesAll body)
  | _, .closure? _ => False
  | _, _ => True

/-- Code all of whose actions and requests do the same with the new labels. -/
def Covers (transfer : Transfer) : Code α → Prop
  | .done _ => True
  | .act primitive next => transfer.Permits primitive ∧ ∀ value, transfer.Covers (next value)
  | .ask _ request next => transfer.Keeps request.nodes ∧ ∀ value, transfer.Covers (next value)

section Covers

variable (transfer : Transfer)

@[simp] theorem covers_pure (value : α) : transfer.Covers (pure value) := trivial

@[simp] theorem covers_perform (primitive : Primitive α) :
    transfer.Covers (Code.perform primitive) ↔ transfer.Permits primitive := by
  simp [Code.perform, Covers]

@[simp] theorem covers_perform_bind (primitive : Primitive α) (next : α → Code β) :
    transfer.Covers (Code.perform primitive >>= next) ↔
      transfer.Permits primitive ∧ ∀ value, transfer.Covers (next value) :=
  .rfl

@[simp] theorem covers_requestIn (setting : Setting) (asked : Request α) :
    transfer.Covers (Code.requestIn setting asked) ↔ transfer.Keeps asked.nodes := by
  simp [Code.requestIn, Covers]

@[simp] theorem covers_request (asked : Request α) :
    transfer.Covers (Code.request asked) ↔ transfer.Keeps asked.nodes :=
  transfer.covers_requestIn .here asked

@[simp] theorem covers_request_bind (asked : Request α) (next : α → Code β) :
    transfer.Covers (Code.request asked >>= next) ↔
      transfer.Keeps asked.nodes ∧ ∀ value, transfer.Covers (next value) :=
  .rfl

@[simp] theorem covers_ite (condition : Prop) [Decidable condition] {first second : Code α} :
    transfer.Covers (if condition then first else second) ↔
      (condition → transfer.Covers first) ∧ (¬condition → transfer.Covers second) := by
  split <;> simp [*]

@[simp] theorem keeps_nil : transfer.Keeps [] := fun _ member => absurd member List.not_mem_nil

@[simp] theorem keeps_cons (first : NodeId) (rest : List NodeId) :
    transfer.Keeps (first :: rest) ↔
      transfer.new.find? (transfer.labels.node first) = transfer.old.find? first ∧
        transfer.Keeps rest :=
  List.forall_mem_cons

@[simp] theorem keeps_append (front back : List NodeId) :
    transfer.Keeps (front ++ back) ↔ transfer.Keeps front ∧ transfer.Keeps back :=
  List.forall_mem_append

end Covers

/-- Code asks only for parts of the text of its request. -/
theorem covers_code (transfer : Transfer) (request : Request α) (isPlain : request.isCall = false)
    (keeps : transfer.Keeps request.nodes) : transfer.Covers request.code := by
  cases request with
  | evaluate expression =>
      cases expression <;> simp_all [Request.code, Request.nodes, Expression.nodes, Permits]
  | logical operator left right =>
      cases operator <;> cases left <;> simp_all [Request.code, Request.nodes]
  | evaluateAll expressions =>
      cases expressions <;> simp_all [Request.code, Request.nodes, Expression.nodesAll]
  | evaluateEntries map entries =>
      cases entries <;> simp_all [Request.code, Request.nodes, Expression.nodesEntries]
  | call closing callee arguments =>
      cases callee with
      | function ref => cases isPlain
      | _ => simp [Request.code, Permits]
  | execute statement =>
      cases statement with
      | declare name value | ret keyword value =>
          cases value <;> simp_all [Request.code, Request.nodes, Statement.nodes, Permits]
      | _ => simp_all [Request.code, Request.nodes, Statement.nodes, Permits]
  | executeAll statements =>
      cases statements with
      | nil => trivial
      | cons statement rest =>
          have parts := (transfer.keeps_append _ _).mp keeps
          refine (transfer.covers_request_bind _ _).mpr ⟨parts.1, fun flow => ?_⟩
          cases flow <;> simp [Request.nodes, parts.2]
  | executeBody body => simp_all [Request.code, Request.nodes, Permits]
  | executeBranches branches =>
      cases branches <;> simp_all [Request.code, Request.nodes, Statement.nodesBranches]
  | repeatBody condition body =>
      have parts := (transfer.keeps_append _ _).mp keeps
      refine (transfer.covers_request_bind _ _).mpr ⟨parts.1, fun value => ?_⟩
      split
      · refine (transfer.covers_request_bind _ _).mpr ⟨parts.2, fun flow => ?_⟩
        cases flow <;> simp [Request.nodes, parts]
      · trivial

end Transfer

namespace Exec

variable {transfer : Transfer}

/-- A permitted action does the same with the new labels. -/
theorem perform_natural {primitive : Primitive α} (permits : transfer.Permits primitive) :
    Natural transfer primitive.perform (primitive.relabel transfer.labels).perform := by
  cases primitive with
  | fail token reason => exact .fail token reason
  | unary operator token operand => exact (Elementary.unary operator operand).natural token
  | binary operator token left right =>
      exact (Elementary.binary operator left right).natural token
  | read node name => exact .read name permits
  | assign node name value => exact .assign name value permits
  | expectContainer bracket object => exact (Elementary.expectContainer object).natural bracket
  | element bracket container index => exact (Elementary.element container index).natural bracket
  | checkElement bracket container index =>
      exact (Elementary.checkElement container index).natural bracket
  | setElement bracket container index value =>
      exact (Elementary.setElement container index value).natural bracket
  | callBuiltin closing ref arguments => exact .callBuiltin closing ref arguments
  | closure? ref => exact permits.elim
  | checkArity closing expected found => exact (Elementary.checkArity expected found).natural closing
  | newFunction name parameters body => exact .newFunction name parameters permits
  | print keyword value => exact .print keyword value
  | render value =>
      exact (Soundless.render value).elementary.natural (.structural .newline 0)
  | _ => exact ⟨fun _ _ => rfl, fun _ admits => admits.of_same rfl rfl rfl⟩

/-- Code does the same with the new labels if what it asks for does. -/
theorem code_natural {fuel : Nat}
    (below : ∀ {β : Type} (asked : Request β), transfer.Keeps asked.nodes →
      Natural transfer (asked.run fuel) ((asked.relabel transfer.labels).run fuel))
    (code : Code α) (covers : transfer.Covers code) :
    Natural transfer (code.run fuel) ((code.relabel transfer.labels).run fuel) := by
  induction code with
  | done value => exact .pure value
  | act primitive next ih =>
      exact (perform_natural covers.1).bind fun value => ih value (covers.2 value)
  | ask setting request next ih =>
      exact (Natural.inside setting (below request covers.1)).bind fun value =>
        ih value (covers.2 value)

/-- A function is called with the new labels of its body. -/
theorem call_natural {fuel : Nat}
    (below : ∀ {β : Type} (asked : Request β), transfer.Keeps asked.nodes →
      Natural transfer (asked.run fuel) ((asked.relabel transfer.labels).run fuel))
    (closing : Token) (ref : FunctionRef) (arguments : List Value) :
    Natural transfer (call (fuel + 1) closing (.function ref) arguments)
      (call (fuel + 1) (closing.relabel transfer.labels) (.function ref) arguments) := by
  refine .get fun machine admits => ?_
  have found : (transfer.machine machine).heap.closure? ref =
      (machine.heap.closure? ref).map (Closure.relabel transfer.labels) := Array.getElem?_map
  rw [found]
  cases known : machine.heap.closure? ref with
  | none => exact .pure _
  | some closure =>
      have keeps := admits.closures closure (Array.mem_of_getElem? known)
      have arity : (closure.relabel transfer.labels).parameters.length =
          closure.parameters.length := List.length_map _
      have bindings : (closure.relabel transfer.labels).bindings arguments =
          closure.bindings arguments := Closure.bindings_relabel transfer.labels closure arguments
      dsimp only [Option.map_some]
      rw [arity, bindings]
      refine ((Elementary.checkArity _ _).natural closing).bind fun _ => ?_
      refine .get fun machine _ => ?_
      have depth : (transfer.machine machine).callDepth = machine.callDepth := rfl
      rw [depth]
      split
      · exact .fail closing _
      · refine (Natural.newEnvironment _ _).bind fun environment => ?_
        rw [← Setting.around_call, ← Setting.around_call]
        refine (Natural.inside (.call environment)
          (below (.executeAll closure.body) keeps)).bind fun flow => ?_
        cases flow <;> exact .pure _

/-- Every function of the evaluator does the same with the new labels. -/
theorem request_natural (fuel : Nat) (request : Request α) (keeps : transfer.Keeps request.nodes) :
    Natural transfer (request.run fuel) ((request.relabel transfer.labels).run fuel) := by
  induction fuel generalizing α with
  | zero => cases request <;> exact .outOfFuel
  | succ fuel below =>
      cases calls : request.isCall with
      | false =>
          rw [Request.run_succ, Request.run_succ, Request.code_relabel _ _ calls]
          exact code_natural below request.code (transfer.covers_code request calls keeps)
      | true =>
          cases request with
          | call closing callee arguments =>
              cases callee with
              | function ref => exact call_natural below closing ref arguments
              | _ => cases calls
          | _ => cases calls

/-- Relabeled programs run alike. -/
theorem executeProgram_natural (fuel : Nat) (program : Program)
    (keeps : transfer.Keeps (Statement.nodesAll program)) :
    Natural transfer (executeProgram fuel program)
      (executeProgram fuel (program.relabel transfer.labels)) := by
  induction program with
  | nil => exact .pure _
  | cons statement rest ih =>
      have parts := (transfer.keeps_append _ _).mp keeps
      exact (request_natural fuel (.execute statement) parts.1).bind fun _ => ih parts.2

end Exec

end OffsideScript
