import OffsideScript.Proofs.Grammar.Containment

namespace OffsideScript

namespace Token

/-- The position of the first end of the file, which follows the last token if the list has none. -/
def endPosition (tokens : List Token) : Nat :=
  tokens.findIdx (·.kind = .endOfFile)

/-- The list with an end of the file behind it, unless it ends with one. -/
def closeList (tokens : List Token) : List Token :=
  if tokens.getLast?.map (·.kind) = some .endOfFile then tokens
  else tokens ++ [structural .endOfFile ((tokens.getLast?.map (·.line)).getD 1)]

/-- Closing a list of tokens changes none of its members. -/
theorem closeList_getElem? {tokens : List Token} {position : Nat} (inside : position < tokens.length) :
    (closeList tokens)[position]? = tokens[position]? := by
  unfold closeList
  split
  · rfl
  · exact List.getElem?_append_left inside

/-- The end of a list of tokens lies within it or right behind it. -/
theorem endPosition_le (tokens : List Token) : endPosition tokens ≤ tokens.length :=
  List.findIdx_le_length

/-- A list without an end of the file gets one right behind its last token. -/
theorem closeList_of_endPosition {tokens : List Token} (missing : endPosition tokens = tokens.length) :
    closeList tokens =
      tokens ++ [structural .endOfFile ((tokens.getLast?.map (·.line)).getD 1)] := by
  have unclosed : ∀ token ∈ tokens, ¬token.kind = .endOfFile := by
    simpa using List.findIdx_eq_length.mp missing
  refine if_neg fun closed => ?_
  obtain ⟨last, found, kind⟩ := Option.map_eq_some_iff.mp closed
  exact unclosed last (List.mem_of_getLast? found) kind

end Token

namespace Cursor

/-- The cursor stands at a position of a list: before the first end of the file it has the tokens up to
there ahead, and then it stays at the end of the file. -/
structure At (tokens : List Token) (position : Nat) (cursor : Cursor) : Prop where
  bound : position ≤ Token.endPosition tokens
  rest : cursor.rest = (tokens.take (Token.endPosition tokens)).drop position
  finish : (Token.closeList tokens)[Token.endPosition tokens]? = some cursor.finish
  closed : cursor.finish.kind = .endOfFile

/-- The last token of the cursor stands at the end position of the closed list. -/
theorem ofTokens_finish (tokens : List Token) :
    (Token.closeList tokens)[Token.endPosition tokens]? = some (ofTokens tokens).finish := by
  have found : tokens.find? (·.kind = .endOfFile) = tokens[Token.endPosition tokens]? :=
    List.find?_eq_getElem?_findIdx
  unfold ofTokens
  rw [found]
  rcases Nat.lt_or_ge (Token.endPosition tokens) tokens.length with inside | outside
  · rw [Token.closeList_getElem? inside, List.getElem?_eq_getElem inside]
  · have last := Nat.le_antisymm (Token.endPosition_le tokens) outside
    rw [Token.closeList_of_endPosition last, last, List.getElem?_eq_none (Nat.le_refl _)]
    exact List.getElem?_concat_length

/-- A fresh cursor stands at the first position. -/
theorem ofTokens_at (tokens : List Token) : (ofTokens tokens).At tokens 0 where
  bound := Nat.zero_le _
  rest := by
    rw [List.drop_zero]
    have split := @List.takeWhile_eq_take_findIdx_not _ tokens (·.kind ≠ .endOfFile)
    simpa [ofTokens, Token.endPosition] using split
  finish := ofTokens_finish tokens
  closed := ofTokens_closed tokens

namespace At

variable {tokens : List Token} {position : Nat} {cursor : Cursor}

/-- The position and the number of tokens left add up to the end position. -/
theorem length (stands : cursor.At tokens position) :
    cursor.rest.length + position = Token.endPosition tokens := by
  have bound := stands.bound
  have inside := Token.endPosition_le tokens
  rw [stands.rest, List.length_drop, List.length_take]
  omega

/-- The token at the cursor is the one at its position, which the list has. -/
theorem current (stands : cursor.At tokens position) :
    (Token.closeList tokens)[position]? = some cursor.current := by
  rcases Nat.lt_or_ge position (Token.endPosition tokens) with before | behind
  · have inside := Nat.lt_of_lt_of_le before (Token.endPosition_le tokens)
    have head : cursor.rest.head? = some tokens[position] := by
      rw [stands.rest, List.head?_drop, List.getElem?_take_of_lt before,
        List.getElem?_eq_getElem inside]
    have same : cursor.current = tokens[position] := by
      rw [Cursor.current, List.headD_eq_head?_getD, head, Option.getD_some]
    rw [same, Token.closeList_getElem? inside, List.getElem?_eq_getElem inside]
  · have ended := Nat.le_antisymm stands.bound behind
    have empty : cursor.rest = [] := List.length_eq_zero_iff.mp (by have := stands.length; omega)
    rw [ended, stands.finish, Cursor.current, empty]
    rfl

/-- A cursor that is further on stands at a position that is not smaller. -/
theorem follows (stands : cursor.At tokens position) {next : Cursor} (further : cursor.Follows next) :
    next.At tokens (Token.endPosition tokens - next.rest.length) where
  bound := Nat.sub_le _ _
  rest := by
    have shorter := further.rest.length_le
    have length := stands.length
    obtain ⟨passed, whole⟩ := further.rest
    have count := congrArg List.length whole
    rw [List.length_append] at count
    rw [stands.rest] at whole
    have skipped : Token.endPosition tokens - next.rest.length = position + passed.length := by omega
    rw [skipped, ← List.drop_drop, ← whole, List.drop_left]
  finish := by rw [further.finish, stands.finish]
  closed := by rw [further.finish, stands.closed]

end At

end Cursor

namespace Reader

/-- Where reading ends, with or without a mistake, unless its fuel does. -/
def ending {α : Type} : EStateM.Result Failure Cursor α → Option Cursor
  | .ok _ next => some next
  | .error (.mistake _) next => some next
  | .error .outOfFuel _ => none

/-- The readers that a program is read with. -/
inductive Call where
  | advance
  | accept (kind : Token.Kind)
  | expect (kind : Token.Kind) (reason : GrammarError.Reason)
  | endLine (context : LineContext)
  | literal
  | name
  | assign (target : Expression) (equals : Token) (value : Expression)
  | expression (level : Level)
  | joined (level : Level) (left : Expression)
  | suffixes (left : Expression)
  | atom
  | list (closing : Token.Kind)
  | items
  | pairs
  | parameters
  | statement
  | branches
  | block (context : BlockContext)
  | statements (nested : Bool)
  | attempt

namespace Call

/-- Where a reader that starts at a cursor ends. -/
def ending (fuel : Nat) (start : Cursor) : Call → Option Cursor
  | advance => Reader.ending (Reader.advance start)
  | accept kind => Reader.ending (Reader.accept kind start)
  | expect kind reason => Reader.ending (Reader.expect kind reason start)
  | endLine context => Reader.ending (Reader.endLine context start)
  | literal => Reader.ending (Reader.literal start)
  | name => Reader.ending (Reader.name start)
  | assign target equals value => Reader.ending (Reader.assign target equals value start)
  | expression level => Reader.ending (Reader.expression fuel level start)
  | joined level left => Reader.ending (Reader.joined fuel level left start)
  | suffixes left => Reader.ending (Reader.suffixes fuel left start)
  | atom => Reader.ending (Reader.atom fuel start)
  | list closing => Reader.ending (Reader.list fuel closing start)
  | items => Reader.ending (Reader.items fuel start)
  | pairs => Reader.ending (Reader.pairs fuel start)
  | parameters => Reader.ending (Reader.parameters fuel start)
  | statement => Reader.ending (Reader.statement fuel start)
  | branches => Reader.ending (Reader.branches fuel start)
  | block context => Reader.ending (Reader.block fuel context start)
  | statements nested => Reader.ending (Reader.statements fuel nested start)
  | attempt => Reader.ending (Reader.attempt fuel start)

end Call

/-- Fuel that every reader can do with on a list of the given length. -/
def ample (size : Nat) : Nat :=
  20 * size + 17

end Reader

namespace Reader

variable {α : Type}

/-- The last cursor of a run that ended is where it ended. -/
theorem finalState_of_ending {result : EStateM.Result Failure Cursor α} {next : Cursor}
    (ended : ending result = some next) : finalState result = next := by
  cases result with
  | ok value last => exact Option.some.inj ended
  | error failure last =>
      cases failure with
      | mistake error => exact Option.some.inj ended
      | outOfFuel => cases ended

/-- Reading that settles ends in its last state. -/
theorem Settles.ending {leaves : Nat → Prop} {result : EStateM.Result Failure Cursor α}
    (settles : Settles leaves result) : ending result = some (finalState result) := by
  cases result with
  | ok value next => rfl
  | error failure next =>
      cases failure with
      | mistake error => rfl
      | outOfFuel => exact settles.elim

namespace Call

/-- A call reads for a goal, or its end is independent of its fuel and not before its start. -/
theorem ending_cases (call : Call) :
    (∃ (α : Type) (goal : Goal α), ∀ fuel start,
      call.ending fuel start = Reader.ending (goal.read fuel start)) ∨
    ∀ start : Cursor, ∃ next, start.Follows next ∧ ∀ fuel, call.ending fuel start = some next := by
  cases call with
  | advance => exact .inr fun start => ⟨start.advance, start.follows_advance, fun _ => rfl⟩
  | accept kind =>
      refine .inr fun start => ?_
      simp only [ending, accept_eq]
      split
      · exact ⟨_, start.follows_advance, fun _ => rfl⟩
      · exact ⟨_, .refl start, fun _ => rfl⟩
  | expect kind reason =>
      refine .inr fun start => ?_
      simp only [ending, expect_eq]
      split
      · exact ⟨_, start.follows_advance, fun _ => rfl⟩
      · exact ⟨_, .refl start, fun _ => rfl⟩
  | endLine context =>
      refine .inr fun start => ?_
      simp only [ending, endLine_eq]
      split
      · exact ⟨_, start.follows_advance, fun _ => rfl⟩
      · exact ⟨_, .refl start, fun _ => rfl⟩
  | literal =>
      refine .inr fun start => ⟨start.advance, start.follows_advance, fun _ => ?_⟩
      simp only [ending, literal_eq]
      cases start.current.literal <;> rfl
  | name =>
      exact .inr fun start =>
        ⟨_, start.follows_advance.trans start.advance.follows_number, fun _ => rfl⟩
  | assign target equals value =>
      refine .inr fun start => ?_
      cases target with
      | «variable» | index => exact ⟨_, .refl start, fun _ => rfl⟩
      | _ => exact ⟨_, start.follows_report _, fun _ => rfl⟩
  | expression level => exact .inl ⟨_, .expression level, fun _ _ => rfl⟩
  | joined level left => exact .inl ⟨_, .joined level left, fun _ _ => rfl⟩
  | suffixes left => exact .inl ⟨_, .suffixes left, fun _ _ => rfl⟩
  | atom => exact .inl ⟨_, .atom, fun _ _ => rfl⟩
  | list closing => exact .inl ⟨_, .list closing, fun _ _ => rfl⟩
  | items => exact .inl ⟨_, .items, fun _ _ => rfl⟩
  | pairs => exact .inl ⟨_, .pairs, fun _ _ => rfl⟩
  | parameters => exact .inl ⟨_, .parameters, fun _ _ => rfl⟩
  | statement => exact .inl ⟨_, .statement, fun _ _ => rfl⟩
  | branches => exact .inl ⟨_, .branches, fun _ _ => rfl⟩
  | block context => exact .inl ⟨_, .block context, fun _ _ => rfl⟩
  | statements nested => exact .inl ⟨_, .statements nested, fun _ _ => rfl⟩
  | attempt => exact .inl ⟨_, .attempt, fun _ _ => rfl⟩

/-- With ample fuel every call comes to an end. -/
theorem exists_ending {fuel : Nat} (call : Call) {start : Cursor}
    (closed : start.finish.kind = .endOfFile) (enough : ample start.rest.length ≤ fuel) :
    ∃ next, call.ending fuel start = some next := by
  rcases call.ending_cases with ⟨α, goal, reads⟩ | small
  · have cost := goal.cost_le
    unfold ample at enough
    exact ⟨_, (reads fuel start).trans (goal.finishes fuel start closed (by omega)).ending⟩
  · obtain ⟨next, _, ends⟩ := small start
    exact ⟨next, ends fuel⟩

/-- A call ends where its cursor started or further on, whatever its fuel. -/
theorem follows_of_ending {fuel : Nat} (call : Call) {start next : Cursor}
    (ended : call.ending fuel start = some next) : start.Follows next := by
  rcases call.ending_cases with ⟨α, goal, reads⟩ | small
  · rw [reads] at ended
    rw [← finalState_of_ending ended]
    exact goal.follows fuel start
  · obtain ⟨last, follows, ends⟩ := small start
    cases (ends fuel).symm.trans ended
    exact follows

/-- A statement that is read or skipped before the end of the file takes a token at least. -/
theorem attempt_shorter {fuel : Nat} {start next : Cursor}
    (closed : start.finish.kind = .endOfFile) (live : start.rest ≠ [])
    (ended : attempt.ending fuel start = some next) : next.rest.length < start.rest.length := by
  have again : Reader.ending (Reader.attempt (max fuel (ample start.rest.length)) start) =
      some next := by
    rcases Goal.attempt.read_more (Nat.le_max_left fuel (ample start.rest.length)) start with
      same | ⟨last, out⟩
    · exact (congrArg Reader.ending same).trans ended
    · rw [ending, show Reader.attempt fuel start = _ from out] at ended
      cases ended
  have settles := Goal.attempt.finishes (max fuel (ample start.rest.length)) start closed
    (Nat.le_trans (Nat.le_succ _) (Nat.le_max_right _ _))
  have some := List.length_pos_of_ne_nil live
  cases ran : Reader.attempt (max fuel (ample start.rest.length)) start with
  | ok read last =>
      rw [Goal.read, ran] at settles
      rw [ran] at again
      cases again
      change _ + min _ 1 ≤ _ at settles
      omega
  | error failure last =>
      cases failure with
      | mistake error => exact absurd ran (attempt_ne_mistake _ start error last)
      | outOfFuel =>
          rw [ran] at again
          cases again

end Call

end Reader

/-- A call from a position of a list ends at a position that is not smaller, and one that reads or skips a
statement before the end of the file at a greater one. -/
theorem Cursor.At.ending {tokens : List Token} {position fuel : Nat} {start next : Cursor}
    (stands : start.At tokens position) (call : Reader.Call)
    (ended : call.ending fuel start = some next) :
    ∃ reached, next.At tokens reached ∧ position ≤ reached ∧
      (call = .attempt → position < Token.endPosition tokens → position < reached) := by
  have follows := call.follows_of_ending ended
  have shorter := follows.rest.length_le
  have length := stands.length
  refine ⟨_, stands.follows follows, by omega, ?_⟩
  rintro rfl before
  have live : start.rest ≠ [] := fun empty => by
    rw [empty, List.length_nil] at length
    omega
  have fewer := Reader.Call.attempt_shorter stands.closed live ended
  omega

namespace Program

/-- Reading a whole list ends at its first end of the file, and more fuel does not change the result. -/
theorem ofTokens_ends (tokens : List Token) : ∃ program last,
    ofTokens tokens = (program, last.errors.reverse) ∧
      last.At tokens (Token.endPosition tokens) ∧
      ∀ fuel, Reader.ample (Token.endPosition tokens) ≤ fuel →
        Reader.statements fuel false (.ofTokens tokens) = .ok program last := by
  have stands := Cursor.ofTokens_at tokens
  have length := stands.length
  obtain ⟨program, last, ran⟩ : ∃ program last,
      Reader.statements (Reader.ample (Token.endPosition tokens)) false (.ofTokens tokens) =
        .ok program last := by
    have enough : 20 * (Cursor.ofTokens tokens).rest.length + 17 ≤
        Reader.ample (Token.endPosition tokens) := by
      unfold Reader.ample
      omega
    have settles := (Goal.statements false).finishes _ _ stands.closed enough
    rw [Goal.read] at settles
    cases ran : Reader.statements (Reader.ample (Token.endPosition tokens)) false
        (.ofTokens tokens) with
    | ok program last => exact ⟨program, last, rfl⟩
    | error failure last =>
        cases failure with
        | mistake error => exact absurd ran (Reader.statements_ne_mistake _ _ _ _ _)
        | outOfFuel =>
            rw [ran] at settles
            exact settles.elim
  have bounded := Token.endPosition_le tokens
  have whole := Reader.statements_more
    (show _ ≤ Reader.enoughFuel tokens by unfold Reader.ample Reader.enoughFuel; omega) ran
  have follows := (Goal.statements false).follows (Reader.ample (Token.endPosition tokens))
    (.ofTokens tokens)
  rw [Goal.read, ran, finalState_ok] at follows
  have ended : last.At tokens (Token.endPosition tokens - last.rest.length) := stands.follows follows
  rw [Reader.statements_rest _ _ _ _ ran] at ended
  refine ⟨program, last, ?_, ended, fun fuel enough => Reader.statements_more enough ran⟩
  rw [ofTokens, whole]

/-- The cursor at the start decides about the result. -/
theorem ofTokens_congr {tokens others : List Token}
    (same : Cursor.ofTokens tokens = Cursor.ofTokens others) : ofTokens tokens = ofTokens others := by
  obtain ⟨program, last, read, _, ran⟩ := ofTokens_ends tokens
  obtain ⟨other, final, readOther, _, ranOther⟩ := ofTokens_ends others
  have left := ran _ (Nat.le_max_left _ (Reader.ample (Token.endPosition others)))
  have right := ranOther _ (Nat.le_max_right (Reader.ample (Token.endPosition tokens)) _)
  rw [same] at left
  cases left.symm.trans right
  rw [read, readOther]

end Program

/-- An end of the file closes the list for the cursor, whatever follows it. -/
theorem Cursor.ofTokens_closed_list (before : List Token) {stop : Token}
    (ends : stop.kind = .endOfFile) (after : List Token) :
    Cursor.ofTokens (before ++ stop :: after) = Cursor.ofTokens (before ++ [stop]) := by
  have rest (others : List Token) : (Cursor.ofTokens (before ++ stop :: others)).rest =
      before.takeWhile (·.kind ≠ .endOfFile) := by
    change List.takeWhile _ (before ++ stop :: others) = _
    rw [List.takeWhile_append]
    split
    · next all =>
        rw [List.takeWhile_cons_of_neg (by simp [ends]), List.append_nil]
        exact ((List.takeWhile_prefix _).eq_of_length all).symm
    · rfl
  have finish (others : List Token) : (Cursor.ofTokens (before ++ stop :: others)).finish =
      (before.find? (·.kind = .endOfFile)).getD stop := by
    have found : (before ++ stop :: others).find? (·.kind = .endOfFile) =
        some ((before.find? (·.kind = .endOfFile)).getD stop) := by
      rw [List.find?_append, List.find?_cons_of_pos (by simp [ends]), Option.or_some]
    unfold ofTokens
    rw [found]
  have same (others : List Token) : Cursor.ofTokens (before ++ stop :: others) =
      ⟨before.takeWhile (·.kind ≠ .endOfFile), (before.find? (·.kind = .endOfFile)).getD stop, 0,
        []⟩ := by
    rw [← rest others, ← finish others]
    rfl
  rw [same after, same []]

namespace Program

/-- Reading any token list ends at its first end of the file, and nothing behind an end of the file has an
influence on the result. On the way the cursor stands at a token of the list; no reader takes it back or
past the first end of the file, and one that reads or skips a statement before it takes it further. -/
theorem ofTokens_stays_inside (tokens : List Token) :
    (∃ program last, ofTokens tokens = (program, last.errors.reverse) ∧
      last.At tokens (Token.endPosition tokens) ∧
      ∀ fuel, Reader.ample (Token.endPosition tokens) ≤ fuel →
        Reader.statements fuel false (.ofTokens tokens) = .ok program last) ∧
    (∀ before stop after others, tokens = before ++ stop :: after → stop.kind = .endOfFile →
      ofTokens (before ++ stop :: others) = ofTokens tokens) ∧
    (Cursor.ofTokens tokens).At tokens 0 ∧
    ∀ (position : Nat) (start : Cursor), start.At tokens position →
      (Token.closeList tokens)[position]? = some start.current ∧
      ∀ (call : Reader.Call) (fuel : Nat),
        (Reader.ample (Token.endPosition tokens - position) ≤ fuel →
          ∃ next, call.ending fuel start = some next) ∧
        ∀ next, call.ending fuel start = some next →
          ∃ reached, next.At tokens reached ∧ position ≤ reached ∧
            (call = .attempt → position < Token.endPosition tokens → position < reached) := by
  refine ⟨ofTokens_ends tokens, ?_, Cursor.ofTokens_at tokens, fun position start stands => ?_⟩
  · rintro before stop after others rfl ends
    apply ofTokens_congr
    rw [Cursor.ofTokens_closed_list before ends others, Cursor.ofTokens_closed_list before ends after]
  · refine ⟨stands.current, fun call fuel => ⟨fun enough => ?_, fun next => stands.ending call⟩⟩
    have length := stands.length
    have size : Token.endPosition tokens - position = start.rest.length := by omega
    rw [size] at enough
    exact call.exists_ending stands.closed enough

end Program

end OffsideScript
