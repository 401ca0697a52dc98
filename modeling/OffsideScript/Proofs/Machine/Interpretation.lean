import OffsideScript.Proofs.Machine.Code
import OffsideScript.Scope.Finding

namespace OffsideScript

/-- What encloses a node of a program, and the scopes around it. -/
structure Surroundings where
  context : Context
  scopes : Scopes

namespace Surroundings

/-- The surroundings with a name in the innermost scope. -/
def bind (around : Surroundings) (name : String) (complete : Bool) : Surroundings :=
  { around with scopes := around.scopes.bind name complete }

/-- The surroundings inside a loop. -/
def looping (around : Surroundings) : Surroundings :=
  { around with context := { around.context with inLoop := true } }

/-- The surroundings of the expressions and blocks of a statement, unless it makes a function. While the initial
value of a variable is computed, its declaration is not complete. -/
def into (around : Surroundings) : Statement → Surroundings
  | .declare name (some _) => around.bind name.lexeme false
  | .loop _ _ => around.looping
  | _ => around

/-- The surroundings behind a statement. -/
def extend (around : Surroundings) : Statement → Surroundings
  | .declare name _ => around.bind name.lexeme true
  | .function name _ _ => around.bind name.lexeme true
  | _ => around

/-- The surroundings of the first statement of a block. -/
def opening (around : Surroundings) : Surroundings :=
  { around with scopes := [] :: around.scopes }

/-- The surroundings of the first statement of a function whose body has the given scopes. -/
def ofFunction (scopes : Scopes) : Surroundings :=
  ⟨⟨true, false⟩, scopes⟩

end Surroundings

/-- The surroundings of what a request asks for in turn, unless it calls a function. -/
def Request.surround {α β : Type} (request : Request α) (around : Surroundings)
    (asked : Request β) : Surroundings :=
  match request, asked with
  | .execute statement, _ => around.into statement
  | .executeBody _, _ => around.opening
  | .executeAll (statement :: _), .executeAll _ => around.extend statement
  | _, _ => around

/-- A meaning of the code of the evaluator in a monad. It is told what surrounds each action, it is told of each
request before the code of the request runs, and it knows the scopes of the bodies of functions. -/
structure Interpretation (m : Type → Type) where
  perform : {α : Type} → Surroundings → Primitive α → m α
  arrive : {α : Type} → Surroundings → Request α → m Unit
  home : FunctionRef → m Scopes
  inside : {α : Type} → Setting → m α → m α
  exhausted : {α : Type} → m α
  inside_here : ∀ {α : Type} (action : m α), inside .here action = action

variable {m : Type → Type} [Monad m] {α β γ : Type}

/-- What a request asks for. The body of a function has the surroundings of its declaration, not of its call. -/
def Interpretation.ask (meaning : Interpretation m)
    (answer : {β : Type} → Surroundings → Request β → m β) (around : Surroundings)
    (request : Request γ) (setting : Setting) (asked : Request β) : m β :=
  match request with
  | .call _ (.function ref) _ => do
      let scopes ← meaning.home ref
      meaning.inside setting (answer (.ofFunction scopes) asked)
  | request => meaning.inside setting (answer (request.surround around asked) asked)

/-- The meaning of code in its surroundings, given the meaning of what it asks for. -/
def Code.interpret (meaning : Interpretation m) (around : Surroundings)
    (answer : {β : Type} → Setting → Request β → m β) : Code α → m α
  | .done value => pure value
  | .act primitive next => do
      let value ← meaning.perform around primitive
      (next value).interpret meaning around answer
  | .ask setting request next => do
      let value ← answer setting request
      (next value).interpret meaning around answer

/-- The meaning of the code of a request, given the answers to what it asks for. -/
def Interpretation.step (meaning : Interpretation m)
    (answer : {β : Type} → Surroundings → Request β → m β) (around : Surroundings)
    (request : Request α) : m α :=
  request.code.interpret meaning around (meaning.ask answer around request)

/-- The meaning of a request with some fuel. -/
def Request.interpret (meaning : Interpretation m) :
    Nat → {α : Type} → Surroundings → Request α → m α
  | 0, _, _, _ => meaning.exhausted
  | fuel + 1, _, around, request => do
      meaning.arrive around request
      meaning.step (Request.interpret meaning fuel) around request

/-- The meaning of the statements of a program in order. -/
def Program.interpret (meaning : Interpretation m) (fuel : Nat) (around : Surroundings) :
    Program → m Unit
  | [] => pure ()
  | statement :: rest => do
      let _ ← (Request.execute statement).interpret meaning fuel around
      Program.interpret meaning fuel (around.extend statement) rest

namespace Code

variable (meaning : Interpretation m) (around : Surroundings)
  (answer : {β : Type} → Setting → Request β → m β)

@[simp] theorem interpret_pure (value : α) :
    (pure value : Code α).interpret meaning around answer = pure value := rfl

@[simp] theorem interpret_ite (condition : Prop) [Decidable condition] (first second : Code α) :
    (if condition then first else second).interpret meaning around answer =
      if condition then first.interpret meaning around answer
      else second.interpret meaning around answer :=
  apply_ite (interpret meaning around answer) condition first second

variable [LawfulMonad m]

@[simp] theorem interpret_perform (primitive : Primitive α) :
    (perform primitive).interpret meaning around answer = meaning.perform around primitive :=
  bind_pure _

@[simp] theorem interpret_requestIn (setting : Setting) (request : Request α) :
    (requestIn setting request).interpret meaning around answer = answer setting request :=
  bind_pure _

@[simp] theorem interpret_request (request : Request α) :
    (Code.request request).interpret meaning around answer = answer .here request :=
  bind_pure _

@[simp] theorem interpret_bind (code : Code α) (next : α → Code β) :
    (code >>= next).interpret meaning around answer =
      code.interpret meaning around answer >>= fun value =>
        (next value).interpret meaning around answer := by
  change (code.bind next).interpret meaning around answer = _
  induction code with
  | done value => simp only [bind, interpret, pure_bind]
  | act primitive rest ih => simp only [bind, interpret, ih, bind_assoc]
  | ask setting request rest ih => simp only [bind, interpret, ih, bind_assoc]

end Code

/-- What a call yields when the body of its function has ended. -/
def Flow.result : Flow → Value
  | .returned value => value
  | _ => .nihl

/-- The call of a function, action by action. -/
theorem Interpretation.step_call [LawfulMonad m] (meaning : Interpretation m)
    (answer : {β : Type} → Surroundings → Request β → m β) (around : Surroundings)
    (closing : Token) (ref : FunctionRef) (arguments : List Value) :
    meaning.step answer around (.call closing (.function ref) arguments) = (do
      match ← meaning.perform around (.closure? ref) with
      | none => pure .nihl
      | some closure =>
          meaning.perform around
            (.checkArity closing closure.parameters.length arguments.length)
          if Machine.maxCallDepth ≤ (← meaning.perform around .callDepth) then
            meaning.perform around (.fail closing .stackOverflow)
          else
            let environment ← meaning.perform around
              (.newEnvironment (closure.bindings arguments) closure.environment)
            let scopes ← meaning.home ref
            let flow ← meaning.inside (.call environment)
              (answer (.ofFunction scopes) (.executeAll closure.body))
            pure flow.result : m Value) := by
  simp only [step, Request.code, Code.interpret_bind, Code.interpret_perform]
  refine bind_congr fun found => ?_
  cases found with
  | none => rfl
  | some closure =>
      simp only [Code.interpret_bind, Code.interpret_perform, Code.interpret_ite,
        Code.interpret_requestIn, ask, bind_assoc]
      refine bind_congr fun _ => bind_congr fun depth => ?_
      congr 1
      refine bind_congr fun environment => bind_congr fun scopes => bind_congr fun flow => ?_
      cases flow <;> rfl

/-- The actions themselves, without a record of anything. -/
def Interpretation.plain : Interpretation Exec where
  perform _ primitive := primitive.perform
  arrive _ _ := pure ()
  home _ := pure []
  inside setting action := setting.around action
  exhausted := throw .outOfFuel
  inside_here := Setting.around_here

/-- The plain meaning of code is its run. -/
theorem Code.interpret_plain (around : Surroundings) (fuel : Nat)
    {answer : {β : Type} → Setting → Request β → Exec β}
    (answers : ∀ {β : Type} (setting : Setting) (asked : Request β),
      answer setting asked = setting.around (asked.run fuel)) (code : Code α) :
    code.interpret .plain around answer = code.run fuel := by
  induction code with
  | done value => rfl
  | act primitive next ih => exact bind_congr ih
  | ask setting request next ih =>
      simp only [interpret, run, answers, ih]

/-- The functions of the evaluator are the plain meanings of their requests. -/
theorem Request.interpret_plain (fuel : Nat) (around : Surroundings) (request : Request α) :
    request.interpret .plain fuel around = request.run fuel := by
  induction fuel generalizing α around with
  | zero => cases request <;> rfl
  | succ fuel below =>
      rw [run_succ]
      refine (pure_bind _ _).trans (Code.interpret_plain around fuel (fun setting asked => ?_) _)
      have answered (inner : Surroundings) :
          Interpretation.plain.inside setting (asked.interpret .plain fuel inner) =
            setting.around (asked.run fuel) := congrArg setting.around (below inner asked)
      unfold Interpretation.ask
      split
      · exact answered _
      · exact answered _

/-- The plain meaning of a program is its execution. -/
theorem Program.interpret_plain (fuel : Nat) (around : Surroundings) (program : Program) :
    program.interpret .plain fuel around = Exec.executeProgram fuel program := by
  induction program generalizing around with
  | nil => rfl
  | cons statement rest ih =>
      unfold Program.interpret Exec.executeProgram
      rw [Request.interpret_plain]
      exact bind_congr fun _ => ih _

end OffsideScript
