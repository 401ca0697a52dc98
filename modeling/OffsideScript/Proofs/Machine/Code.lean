/-
This file writes each function of the evaluator as code that performs primitive actions and requests the
other functions. Run with fuel, the code of a function is the function. The requests that a run makes can
then be told apart, which shows the points that the run comes through.
-/

import OffsideScript.Machine.Run
import OffsideScript.Proofs.Machine.Elementary

namespace OffsideScript

/-- What the evaluator does without calling itself. -/
inductive Primitive : Type → Type 1 where
  | fail {α : Type} (token : Token) (reason : RuntimeError.Reason) : Primitive α
  | render (value : Value) : Primitive String
  | unary (operator : UnaryOperator) (token : Token) (operand : Value) : Primitive Value
  | binary (operator : BinaryOperator) (token : Token) (left right : Value) : Primitive Value
  | read (node : NodeId) (name : Token) : Primitive Value
  | assign (node : NodeId) (name : Token) (value : Value) : Primitive Unit
  | newArray (elements : Array Value) : Primitive Value
  | newMap (map : OrderedMap Value Value) : Primitive Value
  | expectContainer (bracket : Token) (object : Value) : Primitive Container
  | element (bracket : Token) (container : Container) (index : Value) : Primitive Value
  | checkElement (bracket : Token) (container : Container) (index : Value) : Primitive Unit
  | setElement (bracket : Token) (container : Container) (index value : Value) : Primitive Value
  | callBuiltin (closing : Token) (ref : BuiltinRef) (arguments : List Value) : Primitive Value
  | closure? (ref : FunctionRef) : Primitive (Option Closure)
  | checkArity (closing : Token) (expected found : Nat) : Primitive Unit
  | callDepth : Primitive Nat
  | loopDepth : Primitive Nat
  | environment : Primitive EnvironmentRef
  | newEnvironment (bindings : Bindings) (parent : EnvironmentRef) : Primitive EnvironmentRef
  | newFunction (name : Token) (parameters : List Token) (body : List Statement) : Primitive Value
  | define (name : String) (value : Value) : Primitive Unit
  | print (keyword : Token) (value : Value) : Primitive Unit

/-- What the evaluator can be asked to do. -/
inductive Request : Type → Type where
  | evaluate (expression : Expression) : Request Value
  | logical (operator : LogicalOperator) (left : Bool) (right : Expression) : Request Value
  | evaluateAll (expressions : List Expression) : Request (List Value)
  | evaluateEntries (map : OrderedMap Value Value) (entries : List (Expression × Expression)) :
      Request (OrderedMap Value Value)
  | call (closing : Token) (callee : Value) (arguments : List Value) : Request Value
  | execute (statement : Statement) : Request Flow
  | executeAll (statements : List Statement) : Request Flow
  | executeBody (body : List Statement) : Request Flow
  | executeBranches (branches : List (Expression × List Statement)) : Request Flow
  | repeatBody (condition : Expression) (body : List Statement) : Request Flow

/-- Where a request is carried out: at the same place, in an environment of its own, in a loop, or in a call
with the environment of its parameters. -/
inductive Setting where
  | here
  | within (environment : EnvironmentRef)
  | loop
  | call (environment : EnvironmentRef)

/-- A computation of the evaluator, up to what it requests. -/
inductive Code (α : Type) : Type 1 where
  | done (value : α)
  | act {β : Type} (primitive : Primitive β) (next : β → Code α)
  | ask {β : Type} (setting : Setting) (request : Request β) (next : β → Code α)

variable {α β : Type}

namespace Primitive

/-- What a primitive action does. -/
def perform : {α : Type} → Primitive α → Exec α
  | _, .fail token reason => Exec.fail token reason
  | _, .render value => Exec.render value
  | _, .unary operator token operand => Exec.unary operator token operand
  | _, .binary operator token left right => Exec.binary operator token left right
  | _, .read node name => Exec.read node name
  | _, .assign node name value => Exec.assign node name value
  | _, .newArray elements => Exec.newArray elements
  | _, .newMap map => Exec.newMap map
  | _, .expectContainer bracket object => Exec.expectContainer bracket object
  | _, .element bracket container index => Exec.element bracket container index
  | _, .checkElement bracket container index => Exec.checkElement bracket container index
  | _, .setElement bracket container index value => Exec.setElement bracket container index value
  | _, .callBuiltin closing ref arguments => Exec.callBuiltin closing ref arguments
  | _, .closure? ref => do return (← get).heap.closure? ref
  | _, .checkArity closing expected found => Exec.checkArity closing expected found
  | _, .callDepth => do return (← get).callDepth
  | _, .loopDepth => do return (← get).loopDepth
  | _, .environment => do return (← get).environment
  | _, .newEnvironment bindings parent => Exec.newEnvironment bindings parent
  | _, .newFunction name parameters body => Exec.newFunction name parameters body
  | _, .define name value => Exec.define name value
  | _, .print keyword value => Exec.print keyword value

/-- An operation on values and containers that can fail. -/
def isOperation : {α : Type} → Primitive α → Bool
  | _, .unary _ _ _ => true
  | _, .binary _ _ _ _ => true
  | _, .expectContainer _ _ => true
  | _, .element _ _ _ => true
  | _, .checkElement _ _ _ => true
  | _, .setElement _ _ _ _ => true
  | _, .callBuiltin _ _ _ => true
  | _, .checkArity _ _ _ => true
  | _, _ => false

/-- Operations make no sound, whatever the token at which they may fail. -/
theorem soundless {primitive : Primitive α} (operation : primitive.isOperation = true) :
    ∃ (token : Token) (action : Token → Exec α),
      Exec.Soundless action ∧ primitive.perform = action token := by
  cases primitive with
  | unary operator token operand => exact ⟨token, _, .unary operator operand, rfl⟩
  | binary operator token left right => exact ⟨token, _, .binary operator left right, rfl⟩
  | expectContainer bracket object => exact ⟨bracket, _, .expectContainer object, rfl⟩
  | element bracket container index => exact ⟨bracket, _, .element container index, rfl⟩
  | checkElement bracket container index => exact ⟨bracket, _, .checkElement container index, rfl⟩
  | setElement bracket container index value =>
      exact ⟨bracket, _, .setElement container index value, rfl⟩
  | callBuiltin closing ref arguments => exact ⟨closing, _, .callBuiltin ref arguments, rfl⟩
  | checkArity closing expected found => exact ⟨closing, _, .checkArity expected found, rfl⟩
  | _ => cases operation

end Primitive

namespace Setting

/-- The machine at the start of what runs in a setting. -/
def enter (setting : Setting) (machine : Machine) : Machine :=
  match setting with
  | here => machine
  | within environment => { machine with environment }
  | loop => { machine with loopDepth := machine.loopDepth + 1 }
  | call environment =>
      { machine with environment, callDepth := machine.callDepth + 1, loopDepth := 0 }

/-- Comes back to the environment and the loops in which the request was made. -/
def leave (setting : Setting) (environment : EnvironmentRef) (loopDepth : Nat)
    (machine : Machine) : Machine :=
  match setting with
  | here => machine
  | within _ => { machine with environment }
  | loop => { machine with loopDepth := machine.loopDepth - 1 }
  | call _ => { machine with environment, callDepth := machine.callDepth - 1, loopDepth }

/-- Runs an action in a setting and comes back from it. -/
def around (setting : Setting) (action : Exec α) : Exec α :=
  Exec.around setting.enter
    (fun machine => setting.leave machine.environment machine.loopDepth) action

end Setting

/-- The environment in which a setting runs what is asked for in an environment. -/
def Setting.environment (setting : Setting) (current : EnvironmentRef) : EnvironmentRef :=
  match setting with
  | here => current
  | within environment => environment
  | loop => current
  | call environment => environment

namespace Code

/-- Code that goes on with more code. -/
def bind : Code α → (α → Code β) → Code β
  | done value, rest => rest value
  | act primitive next, rest => act primitive fun value => (next value).bind rest
  | ask setting request next, rest => ask setting request fun value => (next value).bind rest

instance : Monad Code where
  pure := done
  bind := bind

/-- The code of one primitive action. -/
def perform (primitive : Primitive α) : Code α := act primitive done

/-- The code of one request in a setting. -/
def requestIn (setting : Setting) (request : Request α) : Code α := ask setting request done

/-- The code of one request where the code runs itself. -/
def request (request : Request α) : Code α := requestIn .here request

end Code

open Code in
/-- The code of a function of the evaluator. -/
def Request.code : {α : Type} → Request α → Code α
  | _, .evaluate (.constant value) => return value.toValue
  | _, .evaluate (.group inner) => request (.evaluate inner)
  | _, .evaluate (.unary operator token operand) => do
      let operand ← request (.evaluate operand)
      perform (.unary operator token operand)
  | _, .evaluate (.binary operator token left right) => do
      let left ← request (.evaluate left)
      let right ← request (.evaluate right)
      perform (.binary operator token left right)
  | _, .evaluate (.logical operator _ left right) => do
      let left ← request (.evaluate left)
      request (.logical operator left.isTrue right)
  | _, .evaluate (.conditional condition whenTrue whenFalse) => do
      let condition ← request (.evaluate condition)
      if condition.isTrue then request (.evaluate whenTrue) else request (.evaluate whenFalse)
  | _, .evaluate (.variable node name) => perform (.read node name)
  | _, .evaluate (.assign node name value) => do
      let value ← request (.evaluate value)
      perform (.assign node name value)
      return value
  | _, .evaluate (.array elements) => do
      let elements ← request (.evaluateAll elements)
      perform (.newArray elements.toArray)
  | _, .evaluate (.map entries) => do
      let map ← request (.evaluateEntries .empty entries)
      perform (.newMap map)
  | _, .evaluate (.call callee closing arguments) => do
      let callee ← request (.evaluate callee)
      let arguments ← request (.evaluateAll arguments)
      request (.call closing callee arguments)
  | _, .evaluate (.index object bracket position) => do
      let object ← request (.evaluate object)
      let container ← perform (.expectContainer bracket object)
      let position ← request (.evaluate position)
      perform (.element bracket container position)
  | _, .evaluate (.setIndex object bracket position value) => do
      let object ← request (.evaluate object)
      let container ← perform (.expectContainer bracket object)
      let position ← request (.evaluate position)
      perform (.checkElement bracket container position)
      let value ← request (.evaluate value)
      perform (.setElement bracket container position value)
  | _, .logical .or true _ => return .boolean true
  | _, .logical .and false _ => return .boolean false
  | _, .logical .or false right => request (.evaluate right)
  | _, .logical .and true right => request (.evaluate right)
  | _, .logical .xor left right => do
      let right ← request (.evaluate right)
      return .boolean (left != right.isTrue)
  | _, .evaluateAll [] => return []
  | _, .evaluateAll (expression :: rest) => do
      let value ← request (.evaluate expression)
      let values ← request (.evaluateAll rest)
      return value :: values
  | _, .evaluateEntries map [] => return map
  | _, .evaluateEntries map ((key, value) :: rest) => do
      let key ← request (.evaluate key)
      let value ← request (.evaluate value)
      request (.evaluateEntries (map.insert key value) rest)
  | _, .call closing (.builtin ref) arguments => perform (.callBuiltin closing ref arguments)
  | _, .call closing (.function ref) arguments => do
      match ← perform (.closure? ref) with
      | none => return .nihl
      | some closure =>
          perform (.checkArity closing closure.parameters.length arguments.length)
          if Machine.maxCallDepth ≤ (← perform .callDepth) then
            perform (.fail closing .stackOverflow)
          else
            let environment ←
              perform (.newEnvironment (closure.bindings arguments) closure.environment)
            match ← requestIn (.call environment) (.executeAll closure.body) with
            | .returned value => return value
            | _ => return .nihl
  | _, .call closing callee _ => do
      perform (.fail closing (.notCallable (← perform (.render callee))))
  | _, .execute (.print keyword value) => do
      let value ← request (.evaluate value)
      perform (.print keyword value)
      return .normal
  | _, .execute (.evaluate value) => do
      let _ ← request (.evaluate value)
      return .normal
  | _, .execute (.declare name none) => do
      perform (.define name.lexeme .nihl)
      return .normal
  | _, .execute (.declare name (some initial)) => do
      let value ← request (.evaluate initial)
      perform (.define name.lexeme value)
      return .normal
  | _, .execute (.branch branches) => request (.executeBranches branches)
  | _, .execute (.loop condition body) => requestIn .loop (.repeatBody condition body)
  | _, .execute (.function name parameters body) => do
      let value ← perform (.newFunction name parameters body)
      perform (.define name.lexeme value)
      return .normal
  | _, .execute (.ret keyword value) => do
      if (← perform .callDepth) = 0 then
        perform (.fail keyword .retOutsideFunction)
      else
        match value with
        | none => return .returned .nihl
        | some value => do
            let value ← request (.evaluate value)
            return .returned value
  | _, .execute (.breakLoop keyword) => do
      if (← perform .loopDepth) = 0 then perform (.fail keyword (.outsideLoop "break"))
      else return .broke
  | _, .execute (.continueLoop keyword) => do
      if (← perform .loopDepth) = 0 then perform (.fail keyword (.outsideLoop "continue"))
      else return .continued
  | _, .executeAll [] => return .normal
  | _, .executeAll (statement :: rest) => do
      match ← request (.execute statement) with
      | .normal => request (.executeAll rest)
      | flow => return flow
  | _, .executeBody body => do
      let environment ← perform (.newEnvironment [] (← perform .environment))
      requestIn (.within environment) (.executeAll body)
  | _, .executeBranches [] => return .normal
  | _, .executeBranches ((condition, body) :: rest) => do
      let condition ← request (.evaluate condition)
      if condition.isTrue then request (.executeBody body) else request (.executeBranches rest)
  | _, .repeatBody condition body => do
      let holds ← request (.evaluate condition)
      if holds.isTrue then
        match ← request (.executeBody body) with
        | .normal => request (.repeatBody condition body)
        | .continued => request (.repeatBody condition body)
        | .broke => return .normal
        | .returned value => return .returned value
      else
        return .normal

/-- The code of a program. -/
def Program.code : Program → Code Unit
  | [] => return ()
  | statement :: rest => do
      let _ ← Code.request (.execute statement)
      Program.code rest

/-- Carries out a request. -/
def Request.run (fuel : Nat) : {α : Type} → Request α → Exec α
  | _, .evaluate expression => Exec.evaluate fuel expression
  | _, .logical operator left right => Exec.logical fuel operator left right
  | _, .evaluateAll expressions => Exec.evaluateAll fuel expressions
  | _, .evaluateEntries map entries => Exec.evaluateEntries fuel map entries
  | _, .call closing callee arguments => Exec.call fuel closing callee arguments
  | _, .execute statement => Exec.execute fuel statement
  | _, .executeAll statements => Exec.executeAll fuel statements
  | _, .executeBody body => Exec.executeBody fuel body
  | _, .executeBranches branches => Exec.executeBranches fuel branches
  | _, .repeatBody condition body => Exec.repeatBody fuel condition body

namespace Code

/-- Runs code with fuel for its requests. -/
def run (fuel : Nat) : Code α → Exec α
  | done value => pure value
  | act primitive next => primitive.perform >>= fun value => (next value).run fuel
  | ask setting request next => setting.around (request.run fuel) >>= fun value => (next value).run fuel

@[simp] theorem run_pure (fuel : Nat) (value : α) : (pure value : Code α).run fuel = pure value :=
  rfl

@[simp] theorem run_bind (fuel : Nat) (code : Code α) (next : α → Code β) :
    (code >>= next).run fuel = code.run fuel >>= fun value => (next value).run fuel := by
  change (code.bind next).run fuel = _
  induction code with
  | done value => rfl
  | act primitive rest ih => simp only [bind, run, ih, bind_assoc]
  | ask setting request rest ih => simp only [bind, run, ih, bind_assoc]

@[simp] theorem run_ite (fuel : Nat) (condition : Prop) [Decidable condition] (first second : Code α) :
    (if condition then first else second).run fuel =
      if condition then first.run fuel else second.run fuel :=
  apply_ite (run fuel) condition first second

@[simp] theorem run_perform (fuel : Nat) (primitive : Primitive α) :
    (perform primitive).run fuel = primitive.perform :=
  bind_pure _

@[simp] theorem run_requestIn (fuel : Nat) (setting : Setting) (request : Request α) :
    (requestIn setting request).run fuel = setting.around (request.run fuel) :=
  bind_pure _

end Code

namespace Setting

@[simp] theorem around_here (action : Exec α) : here.around action = action := by
  funext machine
  change mapState id (action machine) = action machine
  cases action machine <;> rfl

@[simp] theorem around_within (environment : EnvironmentRef) (action : Exec α) :
    (within environment).around action = Exec.within environment action :=
  (Exec.within_eq_around environment action).symm

@[simp] theorem around_loop (action : Exec α) : loop.around action = Exec.inLoop action :=
  (Exec.inLoop_eq_around action).symm

@[simp] theorem around_call (environment : EnvironmentRef) (action : Exec α) :
    (call environment).around action = Exec.inCall (Exec.within environment action) := by
  rw [Exec.inCall_eq_around, Exec.within_eq_around]
  funext machine
  change mapState _ _ = mapState _ (mapState _ _)
  dsimp only [enter, leave]
  cases action _ <;> rfl

end Setting

@[simp] theorem Code.run_request (fuel : Nat) (request : Request α) :
    (Code.request request).run fuel = request.run fuel := by
  rw [Code.request, run_requestIn, Setting.around_here]

namespace Request

attribute [local simp] code

/-- The evaluator of expressions runs their code. -/
theorem evaluate_succ (fuel : Nat) (expression : Expression) :
    Exec.evaluate (fuel + 1) expression = (code (.evaluate expression)).run fuel := by
  cases expression <;> simp [run, Exec.evaluate, Primitive.perform]

/-- The evaluator of logical operators runs their code. -/
theorem logical_succ (fuel : Nat) (operator : LogicalOperator) (left : Bool) (right : Expression) :
    Exec.logical (fuel + 1) operator left right = (code (.logical operator left right)).run fuel := by
  cases operator <;> cases left <;> simp [run, Exec.logical]

/-- The evaluator of lists of expressions runs their code. -/
theorem evaluateAll_succ (fuel : Nat) (expressions : List Expression) :
    Exec.evaluateAll (fuel + 1) expressions = (code (.evaluateAll expressions)).run fuel := by
  cases expressions <;> simp [run, Exec.evaluateAll]

/-- The evaluator of lists of pairs runs their code. -/
theorem evaluateEntries_succ (fuel : Nat) (map : OrderedMap Value Value)
    (entries : List (Expression × Expression)) :
    Exec.evaluateEntries (fuel + 1) map entries = (code (.evaluateEntries map entries)).run fuel := by
  cases entries <;> simp [run, Exec.evaluateEntries]

/-- The evaluator of calls runs their code. -/
theorem call_succ (fuel : Nat) (closing : Token) (callee : Value) (arguments : List Value) :
    Exec.call (fuel + 1) closing callee arguments =
      (code (.call closing callee arguments)).run fuel := by
  cases callee with
  | function ref =>
      simp only [code, Exec.call, Code.run_bind, Code.run_perform, Primitive.perform, bind_assoc,
        pure_bind]
      refine bind_congr fun machine => ?_
      cases machine.heap.closure? ref with
      | none => rfl
      | some closure =>
          simp only [Code.run_bind, Code.run_perform, Code.run_ite, Code.run_requestIn,
            Setting.around_call, Primitive.perform, bind_assoc, pure_bind, run]
          refine bind_congr fun _ => bind_congr fun machine => ?_
          congr 1
          refine bind_congr fun environment => bind_congr fun flow => ?_
          cases flow <;> rfl
  | _ => simp [Exec.call, Primitive.perform]

/-- The executor of statements runs their code. -/
theorem execute_succ (fuel : Nat) (statement : Statement) :
    Exec.execute (fuel + 1) statement = (code (.execute statement)).run fuel := by
  cases statement with
  | declare name initial | ret keyword initial =>
      cases initial <;> simp [run, Exec.execute, Primitive.perform]
  | _ => simp [run, Exec.execute, Primitive.perform]

/-- The executor of lists of statements runs their code. -/
theorem executeAll_succ (fuel : Nat) (statements : List Statement) :
    Exec.executeAll (fuel + 1) statements = (code (.executeAll statements)).run fuel := by
  cases statements with
  | nil => rfl
  | cons statement rest =>
      simp only [code, Exec.executeAll, Code.run_bind, Code.run_request, run]
      refine bind_congr fun flow => ?_
      cases flow <;> simp [run]

/-- The executor of blocks runs their code. -/
theorem executeBody_succ (fuel : Nat) (body : List Statement) :
    Exec.executeBody (fuel + 1) body = (code (.executeBody body)).run fuel := by
  simp [run, Exec.executeBody, Primitive.perform]

/-- The executor of branches runs their code. -/
theorem executeBranches_succ (fuel : Nat) (branches : List (Expression × List Statement)) :
    Exec.executeBranches (fuel + 1) branches = (code (.executeBranches branches)).run fuel := by
  cases branches with
  | nil => rfl
  | cons branch rest => simp [run, Exec.executeBranches]

/-- The executor of loops runs their code. -/
theorem repeatBody_succ (fuel : Nat) (condition : Expression) (body : List Statement) :
    Exec.repeatBody (fuel + 1) condition body = (code (.repeatBody condition body)).run fuel := by
  simp only [code, Exec.repeatBody, Code.run_bind, Code.run_request, Code.run_ite, run]
  refine bind_congr fun value => ?_
  congr 1
  refine bind_congr fun flow => ?_
  cases flow <;> simp [run]

/-- With one more unit of fuel, a function of the evaluator runs its code. -/
theorem run_succ (fuel : Nat) (request : Request α) :
    request.run (fuel + 1) = request.code.run fuel := by
  cases request with
  | evaluate expression => exact evaluate_succ fuel expression
  | logical operator left right => exact logical_succ fuel operator left right
  | evaluateAll expressions => exact evaluateAll_succ fuel expressions
  | evaluateEntries map entries => exact evaluateEntries_succ fuel map entries
  | call closing callee arguments => exact call_succ fuel closing callee arguments
  | execute statement => exact execute_succ fuel statement
  | executeAll statements => exact executeAll_succ fuel statements
  | executeBody body => exact executeBody_succ fuel body
  | executeBranches branches => exact executeBranches_succ fuel branches
  | repeatBody condition body => exact repeatBody_succ fuel condition body

end Request

/-- A program runs its code. -/
theorem Program.run_code (fuel : Nat) (program : Program) :
    Exec.executeProgram fuel program = program.code.run fuel := by
  induction program with
  | nil => rfl
  | cons statement rest ih => simp [Exec.executeProgram, code, Request.run, ih]

end OffsideScript
