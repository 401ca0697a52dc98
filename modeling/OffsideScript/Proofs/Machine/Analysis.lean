import OffsideScript.Proofs.Machine.Interpretation
import OffsideScript.Proofs.Tree.Parts
import OffsideScript.Proofs.Value.OrderedMap

namespace OffsideScript

/-- A value that is complete without the heap. -/
def Value.IsPlain : Value → Prop
  | .array _ => False
  | .map _ => False
  | .function _ => False
  | _ => True

/-- A constant needs no heap. -/
theorem Constant.toValue_isPlain (constant : Constant) : constant.toValue.IsPlain := by
  cases constant <;> trivial

/-- A map all of whose keys and values are good. -/
def OrderedMap.Has (good : Value → Prop) (map : OrderedMap Value Value) : Prop :=
  ∀ entry ∈ map.entries, good entry.1 ∧ good entry.2

/-- The empty map has nothing that is not good. -/
theorem OrderedMap.has_empty (good : Value → Prop) : OrderedMap.Has good .empty := by
  intro entry member
  simp [OrderedMap.empty] at member

/-- Good keys and values can be inserted. -/
theorem OrderedMap.Has.insert {good : Value → Prop} {map : OrderedMap Value Value} {key item : Value}
    (has : map.Has good) (keyGood : good key) (itemGood : good item) :
    (map.insert key item).Has good := by
  intro entry member
  rcases OrderedMap.mem_entries_insert member with old | ⟨rfl, rfl | ⟨old, inside, same⟩⟩
  · exact has entry old
  · exact ⟨keyGood, itemGood⟩
  · exact ⟨same ▸ (has old inside).1, itemGood⟩

/-- A container that is good as a value. -/
def Container.Has (good : Value → Prop) : Container → Prop
  | .array ref => good (.array ref)
  | .map ref => good (.map ref)

/-- The ends of a statement that are allowed inside a call or a loop, with what may be returned. -/
def Flow.Allowed (good : Value → Prop) (called looped : Prop) : Flow → Prop
  | .normal => True
  | .returned value => called ∧ good value
  | .broke => looped
  | .continued => looped

/-- Ends that are allowed stay so where more is. -/
theorem Flow.Allowed.mono {good : Value → Prop} {called looped calledToo loopedToo : Prop} {flow : Flow}
    (allowed : flow.Allowed good called looped) (call : called → calledToo) (loop : looped → loopedToo) :
    flow.Allowed good calledToo loopedToo := by
  cases flow with
  | normal => trivial
  | returned value => exact ⟨call allowed.1, allowed.2⟩
  | broke => exact loop allowed
  | continued => exact loop allowed

namespace Primitive

/-- Actions on values and containers, output, and errors that are not about the place of a statement. -/
def Steady : {α : Type} → Primitive α → Prop
  | _, .fail _ reason => ¬reason.IsMisplacement
  | _, .read _ _ => False
  | _, .assign _ _ _ => False
  | _, .closure? _ => False
  | _, .callDepth => False
  | _, .loopDepth => False
  | _, .environment => False
  | _, .newEnvironment _ _ => False
  | _, .newFunction _ _ _ => False
  | _, .define _ _ => False
  | _, _ => True

/-- A steady action is elementary. -/
theorem Steady.elementary {α : Type} {primitive : Primitive α} (steady : primitive.Steady) :
    ∃ (token : Token) (action : Token → Exec α),
      Exec.Elementary action ∧ primitive.perform = action token := by
  by_cases operation : primitive.isOperation = true
  · obtain ⟨token, action, soundless, same⟩ := soundless operation
    exact ⟨token, action, soundless.elementary, same⟩
  · have anywhere : Token := .structural .newline 0
    cases primitive with
    | fail token reason => exact ⟨token, _, .fail reason steady, rfl⟩
    | render value => exact ⟨anywhere, _, (Exec.Soundless.render value).elementary, rfl⟩
    | newArray elements => exact ⟨anywhere, _, (Exec.Soundless.newArray elements).elementary, rfl⟩
    | newMap map => exact ⟨anywhere, _, (Exec.Soundless.newMap map).elementary, rfl⟩
    | print keyword value => exact ⟨keyword, _, .print value, rfl⟩
    | read | assign | closure? | callDepth | loopDepth | environment | newEnvironment | newFunction
    | define => exact steady.elim
    | _ => exact absurd rfl operation

/-- The values that a steady action works on are good. -/
def Takes (good : Value → Prop) : {α : Type} → Primitive α → Prop
  | _, .binary _ _ left right => good left ∧ good right
  | _, .newArray elements => ∀ item ∈ elements, good item
  | _, .newMap map => map.Has good
  | _, .expectContainer _ object => good object
  | _, .element _ container _ => container.Has good
  | _, .setElement _ container index value => container.Has good ∧ good index ∧ good value
  | _, .callBuiltin _ _ arguments => ∀ item ∈ arguments, good item
  | _, _ => True

/-- What a steady action yields is good. An error yields nothing. -/
def Gives (good : Value → Prop) : {α : Type} → Primitive α → α → Prop
  | _, .fail _ _, _ => False
  | _, .unary _ _ _, value => good value
  | _, .binary _ _ _ _, value => good value
  | _, .newArray _, value => good value
  | _, .newMap _, value => good value
  | _, .expectContainer _ _, container => container.Has good
  | _, .element _ _ _, value => good value
  | _, .setElement _ _ _ _, value => good value
  | _, .callBuiltin _ _ _, value => good value
  | _, _, _ => True

/-- Where all values are good, an action takes only good ones. -/
theorem takes_of_all {α : Type} {good : Value → Prop} (all : ∀ value, good value)
    (primitive : Primitive α) : primitive.Takes good := by
  have container (container : Container) : container.Has good := by cases container <;> exact all _
  cases primitive with
  | binary => exact ⟨all _, all _⟩
  | newArray | callBuiltin => exact fun _ _ => all _
  | newMap => exact fun _ _ => ⟨all _, all _⟩
  | expectContainer => exact all _
  | element => exact container _
  | setElement => exact ⟨container _, all _, all _⟩
  | _ => trivial

/-- Where all values are good, an action can only yield what is good. -/
theorem gives_of_ok {α : Type} {good : Value → Prop} (all : ∀ value, good value)
    {primitive : Primitive α} {machine after : Machine} {value : α}
    (ran : primitive.perform machine = .ok value after) : primitive.Gives good value := by
  cases primitive with
  | fail token reason => cases ran
  | expectContainer bracket object => cases value <;> exact all _
  | unary | binary | newArray | newMap | element | setElement | callBuiltin => exact all value
  | _ => trivial

end Primitive

/-- The statements that leave a call or a loop: the depth that they look at, and how they complain if it is
zero. -/
inductive Statement.Leaves : Statement → Primitive Nat → Token → RuntimeError.Reason → Prop where
  | ret (keyword : Token) (value : Option Expression) :
      Leaves (.ret keyword value) .callDepth keyword .retOutsideFunction
  | breakLoop (keyword : Token) :
      Leaves (.breakLoop keyword) .loopDepth keyword (.outsideLoop "break")
  | continueLoop (keyword : Token) :
      Leaves (.continueLoop keyword) .loopDepth keyword (.outsideLoop "continue")

/-- The number of calls around a statement that returns, and the number of loops around others. -/
def Statement.depth (step : Statement) (machine : Machine) : Nat :=
  match step with
  | .ret _ _ => machine.callDepth
  | _ => machine.loopDepth

/-- What a leaving statement looks at is its depth. -/
theorem Statement.Leaves.perform_eq {step : Statement} {depth : Primitive Nat} {token : Token}
    {reason : RuntimeError.Reason} (leaves : step.Leaves depth token reason) :
    depth.perform = do return step.depth (← get) := by
  cases leaves <;> rfl

/-- The parts of a program that a run can come to. -/
inductive Text where
  | expression (tree : Expression)
  | statement (step : Statement)
  | statements (steps : List Statement)
  | body (block : List Statement)

/-- How the place of a run changes when a name is declared and when a loop is entered. -/
structure Moves (Place : Type) where
  surroundings : Place → Surroundings
  bind : Place → String → Bool → Place
  looping : Place → Place
  surroundings_bind : ∀ place name complete,
    surroundings (bind place name complete) = (surroundings place).bind name complete
  surroundings_looping : ∀ place, surroundings (looping place) = (surroundings place).looping

namespace Moves

variable {Place : Type} (moves : Moves Place) (place : Place)

/-- The place of the expressions and blocks of a statement. -/
def into : Statement → Place
  | .declare name (some _) => moves.bind place name.lexeme false
  | .loop _ _ => moves.looping place
  | _ => place

/-- The place behind a statement. -/
def extend : Statement → Place
  | .declare name _ => moves.bind place name.lexeme true
  | .function name _ _ => moves.bind place name.lexeme true
  | _ => place

/-- The surroundings change with the place. -/
theorem surroundings_extend (step : Statement) :
    moves.surroundings (moves.extend place step) = (moves.surroundings place).extend step := by
  cases step with
  | declare name initial => exact moves.surroundings_bind place name.lexeme true
  | function name parameters body => exact moves.surroundings_bind place name.lexeme true
  | _ => rfl

end Moves

variable {Place : Type}

/-- The parts of a text that run in its environment, with their places. -/
inductive Text.Part (moves : Moves Place) (place : Place) : Text → Place → Text → Prop where
  | child {tree part : Expression} (member : part ∈ tree.children) :
      Part moves place (.expression tree) place (.expression part)
  | operand {step : Statement} {part : Expression} (member : part ∈ step.operands) :
      Part moves place (.statement step) (moves.into place step) (.expression part)
  | block {step : Statement} {block : List Statement} (member : block ∈ step.blocks) :
      Part moves place (.statement step) (moves.into place step) (.body block)
  | head {step : Statement} {rest : List Statement} :
      Part moves place (.statements (step :: rest)) place (.statement step)
  | tail {step : Statement} {rest : List Statement} :
      Part moves place (.statements (step :: rest)) (moves.extend place step) (.statements rest)

/-- What may happen at the places of a run: which texts may run there, which ends of statements are caught, and
which values are at hand. -/
structure Terrain (Place : Type) extends Moves Place where
  suits : Place → Text → Prop
  parts : ∀ {place text inner part}, suits place text → text.Part toMoves place inner part →
    suits inner part
  Called : Place → Prop
  Looped : Place → Prop
  called_bind : ∀ {place name complete}, Called (bind place name complete) → Called place
  looped_bind : ∀ {place name complete}, Looped (bind place name complete) → Looped place
  called_looping : ∀ {place}, Called (looping place) → Called place
  Good : Value → Prop
  plain : ∀ value : Value, value.IsPlain → Good value

namespace Terrain

section Extend

variable {terrain : Terrain Place} {place : Place}

/-- A statement does not begin a call for those behind it. -/
theorem called_extend {step : Statement} (called : terrain.Called (terrain.extend place step)) :
    terrain.Called place := by
  cases step with
  | declare name initial => exact terrain.called_bind called
  | function name parameters body => exact terrain.called_bind called
  | _ => exact called

/-- A statement does not begin a loop for those behind it. -/
theorem looped_extend {step : Statement} (looped : terrain.Looped (terrain.extend place step)) :
    terrain.Looped place := by
  cases step with
  | declare name initial => exact terrain.looped_bind looped
  | function name parameters body => exact terrain.looped_bind looped
  | _ => exact looped

end Extend

variable (terrain : Terrain Place) (place : Place)

/-- The ends that a statement may have at a place. -/
def Ends : Flow → Prop :=
  Flow.Allowed terrain.Good (terrain.Called place) (terrain.Looped place)

/-- The statements that leave a call or a loop may be executed at a place. -/
def MayLeave : Statement → Prop
  | .ret _ _ => terrain.Called place
  | .breakLoop _ => terrain.Looped place
  | .continueLoop _ => terrain.Looped place
  | _ => True

/-- The requests that may be made at a place. -/
def Suits : {α : Type} → Request α → Prop
  | _, .evaluate tree => terrain.suits place (.expression tree)
  | _, .logical _ _ right => terrain.suits place (.expression right)
  | _, .evaluateAll trees => ∀ tree ∈ trees, terrain.suits place (.expression tree)
  | _, .evaluateEntries map entries => map.Has terrain.Good ∧ ∀ entry ∈ entries,
      terrain.suits place (.expression entry.1) ∧ terrain.suits place (.expression entry.2)
  | _, .call _ callee arguments => terrain.Good callee ∧ ∀ item ∈ arguments, terrain.Good item
  | _, .execute step => terrain.suits place (.statement step)
  | _, .executeAll steps => terrain.suits place (.statements steps)
  | _, .executeBody block => terrain.suits place (.body block)
  | _, .executeBranches branches => ∀ branch ∈ branches,
      terrain.suits place (.expression branch.1) ∧ terrain.suits place (.body branch.2)
  | _, .repeatBody condition block =>
      terrain.suits place (.expression condition) ∧ terrain.suits place (.body block)

/-- What requests that are made at a place yield, and where they end. A loop catches the ends of its body. -/
def Yields : {α : Type} → Request α → α → Place → Prop
  | _, .evaluate _, value, later => later = place ∧ terrain.Good value
  | _, .logical _ _ _, value, later => later = place ∧ terrain.Good value
  | _, .evaluateAll _, values, later => later = place ∧ ∀ value ∈ values, terrain.Good value
  | _, .evaluateEntries _ _, map, later => later = place ∧ map.Has terrain.Good
  | _, .call _ _ _, value, later => later = place ∧ terrain.Good value
  | _, .execute step, flow, later => later = terrain.extend place step ∧ terrain.Ends place flow
  | _, .executeAll _, flow, _ => terrain.Ends place flow
  | _, .executeBody _, flow, later => later = place ∧ terrain.Ends place flow
  | _, .executeBranches _, flow, later => later = place ∧ terrain.Ends place flow
  | _, .repeatBody _ _, flow, later =>
      later = place ∧ flow.Allowed terrain.Good (terrain.Called place) False

end Terrain

variable {m : Type → Type} [Monad m] {α β : Type}

/-- A way to show something of all runs. It says what is shown of an action that starts at a place: what the
action may yield, and at which places it may end. The laws are about one or two actions each, and that whole runs
obey them is shown from there. -/
structure Analysis (meaning : Interpretation m) (Place : Type) extends Terrain Place where
  Shows : {α : Type} → Place → m α → (α → Place → Prop) → Prop
  pure : ∀ {α : Type} {place : Place} {value : α} {post : α → Place → Prop}, post value place →
    Shows place (Pure.pure value) post
  next : ∀ {α β : Type} {place : Place} {action : m α} {next : α → m β}
    {middle : α → Place → Prop} {post : β → Place → Prop}, Shows place action middle →
    (∀ value later, middle value later → Shows later (next value) post) →
    Shows place (action >>= next) post
  exhausted : ∀ {α : Type} {place : Place} {post : α → Place → Prop},
    Shows place meaning.exhausted post
  arrive : ∀ {α : Type} {place : Place} {request : Request α}, toTerrain.Suits place request →
    Shows place (meaning.arrive (surroundings place) request) fun _ later => later = place
  perform : ∀ {α : Type} {place : Place} {primitive : Primitive α}, primitive.Steady →
    primitive.Takes Good → Shows place (meaning.perform (surroundings place) primitive)
      fun value later => later = place ∧ primitive.Gives Good value
  read : ∀ {place : Place} {node : NodeId} {name : Token},
    suits place (.expression (.variable node name)) →
    Shows place (meaning.perform (surroundings place) (.read node name))
      fun value later => later = place ∧ Good value
  assign : ∀ {place : Place} {node : NodeId} {name : Token} {tree : Expression} {value : Value},
    suits place (.expression (.assign node name tree)) → Good value →
    Shows place (meaning.perform (surroundings place) (.assign node name value))
      fun _ later => later = place
  initial : ∀ {place : Place} {name : Token} {tree : Expression} {action : m Value},
    suits place (.statement (.declare name (some tree))) →
    (Shows (bind place name.lexeme false) action fun value later =>
      later = bind place name.lexeme false ∧ Good value) →
    Shows place action fun value later => later = place ∧ Good value
  define : ∀ {place : Place} {name : Token} {initial : Option Expression} {value : Value},
    suits place (.statement (.declare name initial)) → Good value →
    Shows place (meaning.perform (surroundings place) (.define name.lexeme value))
      fun _ later => later = bind place name.lexeme true
  function : ∀ {place : Place} {name : Token} {parameters : List Token} {body : List Statement},
    suits place (.statement (.function name parameters body)) →
    Shows place (do
      let value ← meaning.perform (surroundings place) (.newFunction name parameters body)
      meaning.perform (surroundings place) (.define name.lexeme value))
      fun _ later => later = bind place name.lexeme true
  leave : ∀ {place : Place} {step : Statement} {depth : Primitive Nat} {token : Token}
    {reason : RuntimeError.Reason} {action : m Flow} {post : Flow → Place → Prop},
    suits place (.statement step) → step.Leaves depth token reason →
    (toTerrain.MayLeave place step → Shows place action post) →
    Shows place (do
      meaning.arrive (surroundings place) (.execute step)
      if (← meaning.perform (surroundings place) depth) = 0 then
        meaning.perform (surroundings place) (.fail token reason)
      else action) post
  loop : ∀ {place : Place} {action : m Flow} {allowed : Flow → Prop},
    (Shows (looping place) action fun flow later => later = looping place ∧ allowed flow) →
    Shows place (meaning.inside .loop action) fun flow later => later = place ∧ allowed flow
  block : ∀ {place : Place} {block : List Statement} {action : m Flow}, suits place (.body block) →
    (∀ inner, surroundings inner = (surroundings place).opening → suits inner (.statements block) →
      Shows inner action fun flow _ => toTerrain.Ends inner flow) →
    Shows place (do
      let parent ← meaning.perform (surroundings place) .environment
      let environment ← meaning.perform (surroundings place) (.newEnvironment [] parent)
      meaning.inside (.within environment) action)
      fun flow later => later = place ∧ toTerrain.Ends place flow
  call : ∀ {place : Place} {closing : Token} {ref : FunctionRef} {arguments : List Value}
    {answer : {β : Type} → Surroundings → Request β → m β}, Good (.function ref) →
    (∀ item ∈ arguments, Good item) →
    (∀ inner block, suits inner (.statements block) →
      Shows inner (answer (surroundings inner) (.executeAll block))
        fun flow _ => toTerrain.Ends inner flow) →
    Shows place (meaning.step answer (surroundings place) (.call closing (.function ref) arguments))
      fun value later => later = place ∧ Good value

namespace Analysis

variable {meaning : Interpretation m} (analysis : Analysis meaning Place)

/-- An action comes back to its place and yields what is allowed. -/
def Stays (place : Place) (action : m α) (allowed : α → Prop) : Prop :=
  analysis.Shows place action fun value later => later = place ∧ allowed value

/-- The answers to all requests show what they should. -/
def Answers (answer : {β : Type} → Surroundings → Request β → m β) : Prop :=
  ∀ {β : Type} {place : Place} (request : Request β), analysis.Suits place request →
    analysis.Shows place (answer (analysis.surroundings place) request)
      (analysis.Yields place request)

variable {analysis} {place : Place}

/-- What is shown of an action may be weakened. -/
theorem weaken [LawfulMonad m] {action : m α} {middle post : α → Place → Prop}
    (shows_ : analysis.Shows place action middle)
    (more : ∀ value later, middle value later → post value later) :
    analysis.Shows place action post := by
  rw [← bind_pure action]
  exact analysis.next shows_ fun value later holds => analysis.pure (more value later holds)

namespace Stays

variable {action : m α} {allowed : α → Prop} {next : α → m β}

/-- After an action that comes back, the next one starts at the same place. -/
theorem bind {post : β → Place → Prop} (first : analysis.Stays place action allowed)
    (second : ∀ value, allowed value → analysis.Shows place (next value) post) :
    analysis.Shows place (action >>= next) post :=
  analysis.next first fun value _ after => after.1 ▸ second value after.2

/-- Two actions that come back do so together. -/
theorem andThen {permitted : β → Prop} (first : analysis.Stays place action allowed)
    (second : ∀ value, allowed value → analysis.Stays place (next value) permitted) :
    analysis.Stays place (action >>= next) permitted :=
  first.bind second

theorem pure {value : α} (permitted : allowed value) :
    analysis.Stays place (Pure.pure value) allowed :=
  analysis.pure ⟨rfl, permitted⟩

/-- A statement that comes back may end normally. -/
theorem thenNormal (first : analysis.Stays place action allowed) :
    analysis.Stays place (do let _ ← action; Pure.pure Flow.normal) (analysis.Ends place) :=
  first.andThen fun _ _ => .pure trivial

/-- More may be allowed of an action that comes back. -/
theorem mono [LawfulMonad m] {permitted : α → Prop} (stays : analysis.Stays place action allowed)
    (more : ∀ value, allowed value → permitted value) : analysis.Stays place action permitted :=
  weaken stays fun value _ after => ⟨after.1, more value after.2⟩

end Stays

section Answers

attribute [local simp] Request.code Request.surround Expression.children

variable {answer : {β : Type} → Surroundings → Request β → m β}
  (answers : analysis.Answers answer)
include answers

/-- An expression that suits the place yields a good value. -/
theorem Answers.evaluate {tree : Expression} (suits : analysis.suits place (.expression tree)) :
    analysis.Stays place (answer (analysis.surroundings place) (.evaluate tree)) analysis.Good :=
  answers (.evaluate tree) suits

/-- Expressions that suit the place yield good values. -/
theorem Answers.evaluateAll {trees : List Expression}
    (suits : ∀ tree ∈ trees, analysis.suits place (.expression tree)) :
    analysis.Stays place (answer (analysis.surroundings place) (.evaluateAll trees))
      fun values => ∀ value ∈ values, analysis.Good value :=
  answers (.evaluateAll trees) suits

/-- Pairs that suit the place yield a map that is good. -/
theorem Answers.evaluateEntries {map : OrderedMap Value Value}
    {entries : List (Expression × Expression)} (has : map.Has analysis.Good)
    (suits : ∀ entry ∈ entries, analysis.suits place (.expression entry.1) ∧
      analysis.suits place (.expression entry.2)) :
    analysis.Stays place (answer (analysis.surroundings place) (.evaluateEntries map entries))
      (OrderedMap.Has analysis.Good) :=
  answers (.evaluateEntries map entries) ⟨has, suits⟩

/-- A block that suits the place ends as it may there. -/
theorem Answers.executeBody {block : List Statement} (suits : analysis.suits place (.body block)) :
    analysis.Stays place (answer (analysis.surroundings place) (.executeBody block))
      (analysis.Ends place) :=
  answers (.executeBody block) suits

variable [LawfulMonad m]

/-- The code of an expression, operand by operand. -/
theorem Answers.evaluate_code {tree : Expression} (suits : analysis.suits place (.expression tree)) :
    analysis.Stays place
      (meaning.step answer (analysis.surroundings place) (.evaluate tree)) analysis.Good := by
  have inner {part : Expression} (member : part ∈ tree.children) :
      analysis.Stays place (answer (analysis.surroundings place) (.evaluate part)) analysis.Good :=
    answers.evaluate (analysis.parts suits (.child member))
  cases tree <;> simp only [Interpretation.step, Request.code, Code.interpret_bind, Code.interpret_pure,
    Code.interpret_perform, Code.interpret_request, Code.interpret_ite, Interpretation.ask,
    Request.surround, meaning.inside_here]
  case constant value => exact .pure (analysis.plain _ value.toValue_isPlain)
  case group operand => exact inner (by simp [Expression.children])
  case unary operator token operand =>
    refine (inner (by simp [Expression.children])).andThen fun value _ => ?_
    exact analysis.perform trivial trivial
  case binary operator token left right =>
    refine (inner (by simp [Expression.children])).andThen fun leftValue leftGood => ?_
    refine (inner (by simp [Expression.children])).andThen fun rightValue rightGood => ?_
    exact analysis.perform trivial ⟨leftGood, rightGood⟩
  case logical operator token left right =>
    refine (inner (by simp [Expression.children])).andThen fun value _ => ?_
    exact answers (.logical operator value.isTrue right)
      (analysis.parts suits (.child (by simp [Expression.children])))
  case conditional condition whenTrue whenFalse =>
    refine (inner (by simp [Expression.children])).andThen fun value _ => ?_
    split
    · exact inner (by simp [Expression.children])
    · exact inner (by simp [Expression.children])
  case «variable» node name => exact analysis.read suits
  case assign node name tree =>
    refine (inner (by simp [Expression.children])).andThen fun value good => ?_
    exact analysis.next (analysis.assign suits good) fun _ _ same => same ▸ Stays.pure good
  case array elements =>
    refine (answers.evaluateAll fun tree member =>
      analysis.parts suits (.child member)).andThen fun values good => ?_
    exact analysis.perform trivial fun item member => good item (by simpa using member)
  case map entries =>
    refine (answers.evaluateEntries (OrderedMap.has_empty _) fun entry member => ?_).andThen
      fun map has => analysis.perform trivial has
    exact ⟨analysis.parts suits (.child (List.mem_flatMap.mpr ⟨entry, member, by simp⟩)),
      analysis.parts suits (.child (List.mem_flatMap.mpr ⟨entry, member, by simp⟩))⟩
  case call callee closing arguments =>
    refine (inner (by simp [Expression.children])).andThen fun value good => ?_
    refine (answers.evaluateAll fun tree member =>
      analysis.parts suits (.child (List.mem_cons_of_mem _ member))).andThen fun values allGood => ?_
    exact answers (.call closing value values) ⟨good, allGood⟩
  case index object bracket position =>
    refine (inner (by simp [Expression.children])).andThen fun base good => ?_
    refine Stays.andThen (analysis.perform trivial good) fun container has => ?_
    refine (inner (by simp [Expression.children])).andThen fun key _ => ?_
    exact analysis.perform trivial has
  case setIndex object bracket position tree =>
    refine (inner (by simp [Expression.children])).andThen fun base good => ?_
    refine Stays.andThen (analysis.perform trivial good) fun container has => ?_
    refine (inner (by simp [Expression.children])).andThen fun key keyGood => ?_
    refine Stays.andThen (analysis.perform trivial trivial) fun _ _ => ?_
    refine (inner (by simp [Expression.children])).andThen fun value valueGood => ?_
    exact analysis.perform trivial ⟨has, keyGood, valueGood⟩

/-- The code of a logical operator, which may skip its right operand. -/
theorem Answers.logical_code (operator : LogicalOperator) (left : Bool) {right : Expression}
    (suits : analysis.suits place (.expression right)) :
    analysis.Stays place
      (meaning.step answer (analysis.surroundings place) (.logical operator left right))
      analysis.Good := by
  have evaluated := answers.evaluate suits
  cases operator <;> cases left <;> simp only [Interpretation.step, Request.code, Code.interpret_bind,
    Code.interpret_pure, Code.interpret_request, Interpretation.ask, Request.surround,
    meaning.inside_here]
  case and.true | or.false => exact evaluated
  case xor.true | xor.false =>
    exact evaluated.andThen fun _ _ => .pure (analysis.plain _ trivial)
  all_goals exact .pure (analysis.plain _ trivial)

/-- The code of a list of expressions, one after another. -/
theorem Answers.evaluateAll_code {trees : List Expression}
    (suits : ∀ tree ∈ trees, analysis.suits place (.expression tree)) :
    analysis.Stays place
      (meaning.step answer (analysis.surroundings place) (.evaluateAll trees))
      fun values => ∀ value ∈ values, analysis.Good value := by
  cases trees <;> simp only [Interpretation.step, Request.code, Code.interpret_bind, Code.interpret_pure,
    Code.interpret_request, Interpretation.ask, Request.surround, meaning.inside_here]
  case nil => exact .pure fun _ member => absurd member List.not_mem_nil
  case cons tree rest =>
    obtain ⟨first, others⟩ := List.forall_mem_cons.mp suits
    refine (answers.evaluate first).andThen fun value good => ?_
    refine (answers.evaluateAll others).andThen fun values allGood => ?_
    exact .pure (List.forall_mem_cons.mpr ⟨good, allGood⟩)

/-- The code of a list of pairs, key before value. -/
theorem Answers.evaluateEntries_code {map : OrderedMap Value Value}
    {entries : List (Expression × Expression)} (has : map.Has analysis.Good)
    (suits : ∀ entry ∈ entries, analysis.suits place (.expression entry.1) ∧
      analysis.suits place (.expression entry.2)) :
    analysis.Stays place
      (meaning.step answer (analysis.surroundings place) (.evaluateEntries map entries))
      (OrderedMap.Has analysis.Good) := by
  rcases entries with _ | ⟨⟨key, tree⟩, rest⟩ <;> simp only [Interpretation.step, Request.code,
    Code.interpret_bind, Code.interpret_pure, Code.interpret_request, Interpretation.ask,
    Request.surround, meaning.inside_here]
  case nil => exact .pure has
  case cons =>
    obtain ⟨first, others⟩ := List.forall_mem_cons.mp suits
    refine (answers.evaluate first.1).andThen fun key keyGood => ?_
    refine (answers.evaluate first.2).andThen fun value valueGood => ?_
    exact answers.evaluateEntries (has.insert keyGood valueGood) others

/-- The code of a call, of a function or of a builtin. -/
theorem Answers.call_code (closing : Token) {callee : Value} {arguments : List Value}
    (good : analysis.Good callee) (allGood : ∀ item ∈ arguments, analysis.Good item) :
    analysis.Stays place
      (meaning.step answer (analysis.surroundings place) (.call closing callee arguments))
      analysis.Good := by
  cases callee with
  | function ref =>
      exact analysis.call good allGood fun inner block suits => answers (.executeAll block) suits
  | builtin ref =>
      simp only [Interpretation.step, Request.code, Code.interpret_perform]
      exact analysis.perform trivial allGood
  | _ =>
      simp only [Interpretation.step, Request.code, Code.interpret_bind, Code.interpret_perform]
      refine Stays.andThen (analysis.perform trivial trivial) fun text _ => ?_
      exact Stays.mono (analysis.perform not_false trivial) fun _ never => never.elim

/-- The code of a statement behind the arrival there, unless the statement leaves a call or a loop. -/
theorem Answers.execute_code {step : Statement} (suits : analysis.suits place (.statement step))
    (remains : ∀ depth token reason, ¬step.Leaves depth token reason) :
    analysis.Shows place
      (meaning.step answer (analysis.surroundings place) (.execute step))
      fun flow later => later = analysis.extend place step ∧ analysis.Ends place flow := by
  have operand {part : Expression} (member : part ∈ step.operands) :=
    analysis.parts suits (.operand member)
  have block {body : List Statement} (member : body ∈ step.blocks) :=
    analysis.parts suits (.block member)
  have inner {part : Expression} (member : part ∈ step.operands) := answers.evaluate (operand member)
  cases step <;> simp only [Interpretation.step, Request.code, Code.interpret_bind, Code.interpret_pure,
    Code.interpret_perform, Code.interpret_request, Code.interpret_requestIn, Interpretation.ask,
    Request.surround, Surroundings.into, meaning.inside_here]
  case ret keyword value => exact absurd (.ret keyword value) (remains _ _ _)
  case breakLoop keyword => exact absurd (.breakLoop keyword) (remains _ _ _)
  case continueLoop keyword => exact absurd (.continueLoop keyword) (remains _ _ _)
  case print keyword tree =>
    refine (inner List.mem_cons_self).andThen fun value _ => ?_
    exact Stays.thenNormal (analysis.perform trivial trivial)
  case evaluate tree => exact (inner List.mem_cons_self).thenNormal
  case declare name initial =>
    cases initial <;> simp only [Code.interpret_bind, Code.interpret_pure, Code.interpret_perform,
      Code.interpret_request, Interpretation.ask, Request.surround, Surroundings.into,
      meaning.inside_here]
    case none =>
      exact analysis.next (analysis.define suits (analysis.plain _ trivial)) fun _ _ same =>
        analysis.pure ⟨same, trivial⟩
    case some tree =>
      rw [← analysis.surroundings_bind]
      refine Stays.bind (analysis.initial suits (inner List.mem_cons_self)) fun value good => ?_
      exact analysis.next (analysis.define suits good) fun _ _ same => analysis.pure ⟨same, trivial⟩
  case branch branches =>
    refine answers (.executeBranches branches) fun branch member => ⟨operand ?_, block ?_⟩
    · exact List.mem_map_of_mem member
    · exact List.mem_map_of_mem member
  case loop condition body =>
    rw [← analysis.surroundings_looping]
    refine Stays.mono (analysis.loop (answers (.repeatBody condition body) ?_)) fun flow allowed => ?_
    · exact ⟨operand List.mem_cons_self, block List.mem_cons_self⟩
    · exact allowed.mono analysis.called_looping False.elim
  case function name parameters body =>
    rw [← bind_assoc]
    exact analysis.next (analysis.function suits) fun _ _ same => analysis.pure ⟨same, trivial⟩

/-- A statement that leaves a call or a loop looks first whether there is one to leave. -/
theorem Answers.execute_leaving {step : Statement} {depth : Primitive Nat} {token : Token}
    {reason : RuntimeError.Reason} (suits : analysis.suits place (.statement step))
    (leaves : step.Leaves depth token reason) :
    analysis.Shows place (do
      meaning.arrive (analysis.surroundings place) (.execute step)
      meaning.step answer (analysis.surroundings place) (.execute step))
      fun flow later => later = analysis.extend place step ∧ analysis.Ends place flow := by
  cases leaves with
  | breakLoop keyword | continueLoop keyword =>
      simp only [Interpretation.step, Request.code, Code.interpret_bind, Code.interpret_pure,
        Code.interpret_perform, Code.interpret_ite]
      exact analysis.leave suits (by constructor) fun inside => analysis.pure ⟨rfl, inside⟩
  | ret keyword value =>
      simp only [Interpretation.step, Request.code, Code.interpret_bind, Code.interpret_perform,
        Code.interpret_ite]
      refine analysis.leave suits (.ret _ _) fun inside => ?_
      cases value <;> simp only [Code.interpret_bind, Code.interpret_pure, Code.interpret_request,
        Interpretation.ask, Request.surround, Surroundings.into, meaning.inside_here]
      case none => exact analysis.pure ⟨rfl, inside, analysis.plain _ trivial⟩
      case some tree =>
        have evaluated := answers.evaluate (analysis.parts suits (.operand List.mem_cons_self))
        exact evaluated.bind fun value good => analysis.pure ⟨rfl, inside, good⟩

/-- The code of a list of statements, which stops at the first end that is not normal. -/
theorem Answers.executeAll_code {steps : List Statement}
    (suits : analysis.suits place (.statements steps)) :
    analysis.Shows place
      (meaning.step answer (analysis.surroundings place) (.executeAll steps))
      fun flow _ => analysis.Ends place flow := by
  cases steps <;> simp only [Interpretation.step, Request.code, Code.interpret_bind, Code.interpret_pure,
    Code.interpret_request, Interpretation.ask, Request.surround, meaning.inside_here]
  case nil => exact analysis.pure trivial
  case cons step rest =>
    refine analysis.next (answers (.execute step) (analysis.parts suits .head)) ?_
    rintro flow _ ⟨rfl, ends⟩
    cases flow <;> simp only [Code.interpret_pure, Code.interpret_request, Interpretation.ask,
      Request.surround, meaning.inside_here]
    case normal =>
      rw [← analysis.surroundings_extend]
      refine analysis.weaken (answers (.executeAll rest) (analysis.parts suits .tail)) ?_
      exact fun flow _ allowed => allowed.mono analysis.called_extend analysis.looped_extend
    all_goals exact analysis.pure ends

/-- The code of a block in an environment of its own. -/
theorem Answers.executeBody_code {block : List Statement} (suits : analysis.suits place (.body block)) :
    analysis.Stays place
      (meaning.step answer (analysis.surroundings place) (.executeBody block))
      (analysis.Ends place) := by
  simp only [Interpretation.step, Request.code, Code.interpret_bind, Code.interpret_perform,
    Code.interpret_requestIn, Interpretation.ask, Request.surround]
  refine analysis.block suits fun inner same fits => ?_
  rw [← same]
  exact answers (.executeAll block) fits

/-- The code of a branch, condition by condition. -/
theorem Answers.executeBranches_code {branches : List (Expression × List Statement)}
    (suits : ∀ branch ∈ branches, analysis.suits place (.expression branch.1) ∧
      analysis.suits place (.body branch.2)) :
    analysis.Stays place
      (meaning.step answer (analysis.surroundings place) (.executeBranches branches))
      (analysis.Ends place) := by
  rcases branches with _ | ⟨⟨condition, block⟩, rest⟩ <;> simp only [Interpretation.step, Request.code,
    Code.interpret_bind, Code.interpret_pure, Code.interpret_request, Code.interpret_ite,
    Interpretation.ask, Request.surround, meaning.inside_here]
  case nil => exact .pure trivial
  case cons =>
    obtain ⟨first, others⟩ := List.forall_mem_cons.mp suits
    refine (answers.evaluate first.1).andThen fun value _ => ?_
    split
    · exact answers.executeBody first.2
    · exact answers (.executeBranches rest) others

/-- The code of a loop, with the ends of its body caught. -/
theorem Answers.repeatBody_code {condition : Expression} {block : List Statement}
    (suits : analysis.suits place (.expression condition))
    (fits : analysis.suits place (.body block)) :
    analysis.Stays place
      (meaning.step answer (analysis.surroundings place) (.repeatBody condition block))
      (Flow.Allowed analysis.Good (analysis.Called place) False) := by
  simp only [Interpretation.step, Request.code, Code.interpret_bind, Code.interpret_pure,
    Code.interpret_request, Code.interpret_ite, Interpretation.ask, Request.surround,
    meaning.inside_here]
  refine (answers.evaluate suits).andThen fun value _ => ?_
  split
  · refine (answers.executeBody fits).andThen fun flow ends => ?_
    cases flow <;> simp only [Code.interpret_pure, Code.interpret_request, Interpretation.ask,
      Request.surround, meaning.inside_here]
    case normal | continued => exact answers (.repeatBody condition block) ⟨suits, fits⟩
    case broke => exact .pure trivial
    case returned value => exact .pure ends
  · exact .pure trivial

/-- The code of a request shows what it should, if the answers to what it asks for do. -/
theorem Answers.arriving (request : Request α) (suits : analysis.Suits place request) :
    analysis.Shows place (do
      meaning.arrive (analysis.surroundings place) request
      meaning.step answer (analysis.surroundings place) request)
      (analysis.Yields place request) := by
  have behind {post : α → Place → Prop} (shown : analysis.Shows place
      (meaning.step answer (analysis.surroundings place) request) post) :
      analysis.Shows place (do
        meaning.arrive (analysis.surroundings place) request
        meaning.step answer (analysis.surroundings place) request) post :=
    analysis.next (analysis.arrive suits) fun _ _ same => same ▸ shown
  cases request with
  | evaluate tree => exact behind (answers.evaluate_code suits)
  | logical operator left right => exact behind (answers.logical_code operator left suits)
  | evaluateAll trees => exact behind (answers.evaluateAll_code suits)
  | evaluateEntries map entries => exact behind (answers.evaluateEntries_code suits.1 suits.2)
  | call closing callee arguments => exact behind (answers.call_code closing suits.1 suits.2)
  | execute step =>
      by_cases leaving : ∃ depth token reason, step.Leaves depth token reason
      · obtain ⟨_, _, _, leaves⟩ := leaving
        exact answers.execute_leaving suits leaves
      · exact behind (answers.execute_code suits fun depth token reason leaves =>
          leaving ⟨depth, token, reason, leaves⟩)
  | executeAll steps => exact behind (answers.executeAll_code suits)
  | executeBody block => exact behind (answers.executeBody_code suits)
  | executeBranches branches => exact behind (answers.executeBranches_code suits)
  | repeatBody condition block => exact behind (answers.repeatBody_code suits.1 suits.2)

end Answers

variable [LawfulMonad m] (analysis)

/-- The requests of a run are answered as they should be, by induction on the fuel. -/
theorem answers (fuel : Nat) : analysis.Answers (Request.interpret meaning fuel) := by
  intro β place request suits
  induction fuel generalizing β place with
  | zero => exact analysis.exhausted
  | succ fuel below => exact Answers.arriving (fun request suits => below request suits) request suits

/-- Whatever may be requested at a place, with any fuel, shows what it should. -/
theorem request (fuel : Nat) (place : Place) (request : Request α)
    (suits : analysis.Suits place request) :
    analysis.Shows place (request.interpret meaning fuel (analysis.surroundings place))
      (analysis.Yields place request) :=
  analysis.answers fuel request suits

/-- A program may run at a place that suits its statements. -/
theorem program (fuel : Nat) (place : Place) (program : Program)
    (suits : analysis.suits place (.statements program)) :
    analysis.Shows place (program.interpret meaning fuel (analysis.surroundings place))
      fun _ _ => True := by
  induction program generalizing place with
  | nil => exact analysis.pure trivial
  | cons step rest ih =>
      refine analysis.next (analysis.request fuel place (.execute step) (analysis.parts suits .head)) ?_
      rintro flow _ ⟨rfl, _⟩
      rw [← analysis.surroundings_extend]
      exact ih _ (analysis.parts suits .tail)

end Analysis

end OffsideScript
