import OffsideScript.Proofs.Grammar.Soundness

namespace OffsideScript

/-- What is known of the tokens and the numbers, and what is asked of all that is read from them. -/
structure Harvest where
  word : Token → Prop
  number : NodeId → Prop
  result : {α : Type} → Goal α → α → Prop

/-- What was read before a goal is as it is asked for. -/
def Harvest.Given (harvest : Harvest) : {α : Type} → Goal α → Prop
  | _, .joined level left => harvest.result (.joined level left) left
  | _, .suffixes left => harvest.result (.suffixes left) left
  | _, _ => True

/-- A plan comes to a result as it is asked for, if the tokens and the numbers that it takes are as they are
known to be. -/
def Plan.Bears {α : Type} (harvest : Harvest) (result : α → Prop) : Plan α → Prop
  | done value => result value
  | fail _ => True
  | take sort _ taken other =>
      (∀ found token, sort token.kind = some found → harvest.word token →
        (taken found token).Bears harvest result) ∧ other.Bears harvest result
  | look _ found other => found.Bears harvest result ∧ other.Bears harvest result
  | name taken other =>
      (∀ node token, token.kind = .identifier → harvest.word token → harvest.number node →
        (taken node token).Bears harvest result) ∧ other.Bears harvest result
  | literal taken other =>
      (∀ token value, token.kind = .number ∨ token.kind = .text → harvest.word token →
        token.literal = some value → (taken value).Bears harvest result) ∧
        other.Bears harvest result
  | report _ next => next.Bears harvest result
  | ask goal next =>
      harvest.Given goal ∧ ∀ value, harvest.result goal value → (next value).Bears harvest result
  | ending _ ended more => ended.Bears harvest result ∧ more.Bears harvest result
  | rescue next =>
      (∀ tree, harvest.result .statement tree → (next (some tree)).Bears harvest result) ∧
        (next none).Bears harvest result

/-- The tokens ahead of a cursor are as they are known to be. -/
structure Harvest.Offers (harvest : Harvest) (cursor : Cursor) : Prop where
  closed : cursor.finish.kind = .endOfFile
  words : ∀ token ∈ cursor.rest, harvest.word token

/-- The numbers that are given between two cursors are as they are known to be. -/
def Harvest.Numbers (harvest : Harvest) (start next : Cursor) : Prop :=
  ∀ node : Nat, start.nextNode ≤ node → node < next.nextNode → harvest.number node

/-- All that is read for a goal is as it is asked for. -/
def Harvest.Gathers {α : Type} (harvest : Harvest) (goal : Goal α) (reader : Reader α) : Prop :=
  ∀ (start : Cursor) (value : α) (next : Cursor), harvest.Offers start →
    reader start = .ok value next → harvest.Numbers start next → harvest.result goal value

namespace Harvest

variable {harvest : Harvest} {start middle next : Cursor}

/-- What is offered at the start is offered further on. -/
theorem Offers.follows (offers : harvest.Offers start) (follows : start.Follows next) :
    harvest.Offers next :=
  ⟨follows.closed offers.closed,
    fun token member => offers.words token (follows.rest.subset member)⟩

/-- The current token is as it is known to be, unless the file ends there. -/
theorem Offers.current (offers : harvest.Offers start) (live : start.current.kind ≠ .endOfFile) :
    harvest.word start.current := by
  have nonempty := Cursor.rest_ne_nil offers.closed live
  apply offers.words
  unfold Cursor.current
  cases shape : start.rest with
  | nil => exact absurd shape nonempty
  | cons token rest => exact List.mem_cons_self

/-- The numbers after a cursor in between are among the numbers after the start. -/
theorem Numbers.after (numbers : harvest.Numbers start next) (follows : start.Follows middle) :
    harvest.Numbers middle next :=
  fun node above below => numbers node (Nat.le_trans follows.counts above) below

/-- The numbers up to a cursor in between are among the numbers up to the end. -/
theorem Numbers.upto (numbers : harvest.Numbers start next) (follows : middle.Follows next) :
    harvest.Numbers start middle :=
  fun node above below => numbers node above (Nat.lt_of_lt_of_le below follows.counts)

end Harvest

/-- A plan that bears what is asked for gathers it. -/
theorem Plan.gathers {harvest : Harvest} {α : Type} {fuel : Nat}
    (goals : ∀ {β : Type} (goal : Goal β), harvest.Given goal →
      harvest.Gathers goal (goal.read fuel))
    {result : α → Prop} {plan : Plan α}
    (bears : plan.Bears harvest result) {start : Cursor} (offers : harvest.Offers start) {value : α}
    {next : Cursor} (succeeds : plan.Succeeds fuel value next start)
    (numbers : harvest.Numbers start next) : result value := by
  induction succeeds with
  | done => exact bears
  | untaken _ _ ih | missed _ _ ih | unnamed _ _ ih | uncarried _ _ ih | unended _ _ ih =>
      exact ih bears.2 offers numbers
  | found _ _ ih | ended _ _ ih => exact ih bears.1 offers numbers
  | @taken _ _ live _ _ start found sorted _ ih =>
      have word := offers.current (ne_endOfFile live sorted)
      have advances := start.follows_advance
      exact ih (bears.1 found _ sorted word) (offers.follows advances) (numbers.after advances)
  | @named _ _ start named rest ih =>
      have word := offers.current (by rw [named]; decide)
      have given := numbers start.nextNode (Nat.le_refl _) rest.follows.counts
      have advances := start.follows_advance.trans start.advance.follows_number
      exact ih (bears.1 _ _ named word given) (offers.follows advances) (numbers.after advances)
  | @carried _ _ start _ kind carries _ ih =>
      have word := offers.current (literal_ne_endOfFile kind)
      have advances := start.follows_advance
      exact ih (bears.1 _ _ kind word carries) (offers.follows advances) (numbers.after advances)
  | @reported error _ start _ ih =>
      have reports := start.follows_report error
      exact ih bears (offers.follows reports) (numbers.after reports)
  | @asked _ goal _ start middle part read rest ih =>
      have follows := Goal.follows_of_ok read
      have gathered := goals goal bears.1 start part middle offers read
        (numbers.upto rest.follows)
      exact ih (bears.2 part gathered) (offers.follows follows) (numbers.after follows)
  | @read _ start middle tree read rest ih =>
      have follows := Goal.follows_of_ok read
      have gathered := goals .statement trivial start tree middle offers read
        (numbers.upto rest.follows)
      exact ih (bears.1 tree gathered) (offers.follows follows) (numbers.after follows)
  | recovered mistaken _ ih =>
      have recovers := Goal.follows_of_mistake mistaken
      exact ih bears.2 (offers.follows recovers) (numbers.after recovers)

/-- If all plans bear what is asked for, all readers gather it. -/
theorem Harvest.gathers {harvest : Harvest}
    (plans : ∀ {α : Type} (goal : Goal α), harvest.Given goal →
      goal.plan.Bears harvest (harvest.result goal)) {α : Type} (fuel : Nat) (goal : Goal α)
    (given : harvest.Given goal) : harvest.Gathers goal (goal.read fuel) := by
  refine Goal.read_induction
    (motive := fun _ _ goal reader => harvest.Given goal → harvest.Gathers goal reader)
    (fun goal _ start value next _ ran _ => ?_)
    (fun fuel goals _ goal given start value next offers ran numbers => ?_) fuel goal given
  · cases ran
  · exact Plan.gathers goals (plans goal given) offers (Plan.succeeds ran) numbers

/-- All that is read from a token list is as it is asked for. -/
theorem Harvest.ofTokens (harvest : Harvest)
    (plans : ∀ {α : Type} (goal : Goal α), harvest.Given goal →
      goal.plan.Bears harvest (harvest.result goal)) {tokens : List Token}
    (words : ∀ token ∈ tokens, harvest.word token)
    (numbers : ∀ node : Nat, node < Program.allocated tokens → harvest.number node) :
    harvest.result (.statements false) (Program.ofTokens tokens).1 := by
  obtain ⟨program, next, ran, read⟩ := Program.ofTokens_eq tokens
  rw [read]
  refine harvest.gathers plans (Reader.enoughFuel tokens) (.statements false) trivial
    (.ofTokens tokens) program next ⟨Cursor.ofTokens_closed tokens, fun token member => ?_⟩ ran
    fun node _ below => numbers node ?_
  · exact words token ((List.takeWhile_sublist _).subset member)
  · unfold Program.allocated
    rw [ran]
    exact below

end OffsideScript
