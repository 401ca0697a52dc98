/-
This file shows that a broken statement does not harm the statements around it. Those before it and those
after it are read as they are read alone, and its mistakes are reported where it stands.
-/

import OffsideScript.Proofs.Grammar.Moving
import OffsideScript.Proofs.Grammar.Walk
import OffsideScript.Proofs.Token.Nesting

namespace OffsideScript

/-- The error is reported at one of the tokens. -/
def GrammarError.IsAt (error : GrammarError) (tokens : List Token) : Prop :=
  ∃ token ∈ tokens, ∃ reason, error = .at token reason

/-- An error at one of some tokens is at one of more tokens. -/
theorem GrammarError.IsAt.mono {error : GrammarError} {fewer tokens : List Token}
    (located : error.IsAt fewer) (among : fewer ⊆ tokens) : error.IsAt tokens := by
  obtain ⟨token, member, reason, rfl⟩ := located
  exact ⟨token, among member, reason, rfl⟩

namespace Cursor

/-- A step passes the current token. -/
theorem Reads.advance {cursor : Cursor} (more : cursor.rest ≠ []) :
    cursor.Reads [cursor.current] cursor.advance := by
  refine ⟨?_, rfl⟩
  unfold current Cursor.advance
  cases shape : cursor.rest with
  | nil => exact absurd shape more
  | cons token rest => rfl

/-- The current token is passed, or it is still the current one. -/
theorem Reads.current_mem {start next : Cursor} {passed : List Token}
    (reads : start.Reads passed next) : start.current ∈ passed ++ [next.current] := by
  unfold current
  rw [reads.rest]
  cases passed with
  | nil => simp [reads.finish]
  | cons token passed => simp

/-- Between two cursors errors are reported at tokens that are passed or at the one that is reached, and
so are the errors that are found there. -/
def Finds (start next : Cursor) (found : List GrammarError) : Prop :=
  ∃ passed reports, start.Reads passed next ∧ next.errors = reports ++ start.errors ∧
    ∀ error ∈ found ++ reports, error.IsAt (passed ++ [next.current])

namespace Finds

theorem refl (cursor : Cursor) : cursor.Finds cursor [] :=
  ⟨[], [], .refl cursor, rfl, by simp⟩

theorem trans {first second third : Cursor} {found : List GrammarError}
    (before : first.Finds second []) (after : second.Finds third found) :
    first.Finds third found := by
  obtain ⟨early, reported, readsEarly, errorsEarly, atEarly⟩ := before
  obtain ⟨late, further, readsLate, errorsLate, atLate⟩ := after
  refine ⟨early ++ late, further ++ reported, readsEarly.trans readsLate, ?_, ?_⟩
  · rw [errorsLate, errorsEarly, List.append_assoc]
  · intro error member
    rw [← List.append_assoc] at member
    rcases List.mem_append.mp member with behind | before
    · exact (atLate error behind).mono (by simp)
    · refine (atEarly error before).mono (List.append_subset.mpr ⟨by simp, ?_⟩)
      rintro token here
      rw [List.mem_singleton.mp here, List.append_assoc]
      exact List.mem_append_right _ readsLate.current_mem

/-- A step reports nothing. -/
theorem advance {cursor : Cursor} (more : cursor.rest ≠ []) : cursor.Finds cursor.advance [] :=
  ⟨_, [], .advance more, rfl, by simp⟩

/-- A mistake is found at the current token. -/
theorem mistake (cursor : Cursor) (reason : GrammarError.Reason) :
    cursor.Finds cursor [.at cursor.current reason] := by
  refine ⟨[], [], .refl cursor, rfl, ?_⟩
  simp only [List.append_nil, List.nil_append, List.forall_mem_singleton]
  exact ⟨_, List.mem_singleton_self _, reason, rfl⟩

/-- Recovery reports the error that was found. -/
theorem recover {start failed : Cursor} {error : GrammarError}
    (finds : start.Finds failed [error]) : start.Finds (start.recover failed error) [] := by
  obtain ⟨passed, reports, reads, errors, located⟩ := finds
  have follows := follows_recover start failed error
  obtain ⟨skipped, shape⟩ := follows.rest
  have further : failed.Reads skipped (start.recover failed error) := ⟨shape.symm, follows.finish⟩
  refine ⟨passed ++ skipped, error :: reports, reads.trans further, ?_, ?_⟩
  · rw [recover_errors, errors]
    rfl
  · intro report member
    refine (located report member).mono (List.append_subset.mpr ⟨by simp, ?_⟩)
    rintro token here
    rw [List.mem_singleton.mp here, List.append_assoc]
    exact List.mem_append_right _ further.current_mem

end Finds

end Cursor

/-- Reading reports its errors at the tokens that it sees. -/
def Reader.location : Reader.Walk where
  passes start next := start.Finds next []
  fails start next error := start.Finds next [error]
  refl := .refl
  trans := .trans
  after := .trans
  step more _ := .advance more
  number cursor := ⟨[], [], ⟨rfl, rfl⟩, rfl, by simp⟩
  assigned := by
    rintro start next more _ ⟨passed, reports, reads, errors, located⟩
    have whole := (Cursor.Reads.advance more).trans reads
    refine ⟨_, .at start.current .assignmentTarget :: reports, ⟨whole.rest, whole.finish⟩,
      congrArg (_ :: ·) errors, ?_⟩
    refine List.forall_mem_cons.mpr ⟨⟨start.current, by simp, _, rfl⟩, fun report member => ?_⟩
    exact (located report member).mono (by simp [Cursor.current, Cursor.report])
  mistaken cursor _ _ := .mistake cursor _
  malformed := by
    intro cursor more _
    refine ⟨_, [], .advance more, rfl, ?_⟩
    simp only [List.append_nil, List.forall_mem_singleton]
    exact ⟨cursor.current, by simp, _, rfl⟩
  enclosed more _ passed further _ := ((Cursor.Finds.advance more).trans passed).trans (.advance further)
  unended more _ passed _ := ((Cursor.Finds.advance more).trans passed).trans (.mistake _ _)
  recovered _ _ _ finds := finds.recover

namespace Token

/-- What ends a statement: the end of its line, or a block with all blocks inside of it. -/
inductive Closes : List Token → Prop where
  | line {newline : Token} (ends : newline.kind = .newline) : Closes [newline]
  | block {indent dedent : Token} {body : List Token} (opens : indent.kind = .indent)
      (inner : Balanced body) (inside : ∀ token ∈ body, token.kind ≠ .endOfFile)
      (closes : dedent.kind = .dedent) : Closes (indent :: (body ++ [dedent]))

/-- What ends a statement does not end the file. -/
theorem Closes.inside {tokens : List Token} (closes : Closes tokens) :
    ∀ token ∈ tokens, token.kind ≠ .endOfFile := by
  cases closes with
  | line ends =>
      rintro token member
      rw [List.mem_singleton.mp member, ends]
      decide
  | block opens _ inside closes =>
      refine List.forall_mem_cons.mpr ⟨by rw [opens]; decide, List.forall_mem_append.mpr ⟨inside, ?_⟩⟩
      rintro token member
      rw [List.mem_singleton.mp member, closes]
      decide

/-- A statement is ended by some token. -/
theorem Closes.ne_nil {tokens : List Token} (closes : Closes tokens) : tokens ≠ [] := by
  cases closes <;> exact List.cons_ne_nil _ _

/-- Blocks inside of a block are skipped with it, as long as it is not closed among them. -/
theorem skipBlock_append {body : List Token} {depth : Nat}
    (still : ∀ before, before <+: body → dedents before < depth + indents before)
    (rest : List Token) :
    skipBlock depth (body ++ rest) = skipBlock (depth + indents body - dedents body) rest := by
  induction body generalizing depth with
  | nil => rfl
  | cons token body ih =>
      have here := still [token] ⟨body, rfl⟩
      have behind (before : List Token) (beginning : before <+: body) :=
        still (token :: before) (List.cons_prefix_cons.mpr ⟨rfl, beginning⟩)
      have start := still [] List.nil_prefix
      simp only [indents_cons, dedents_cons, indents_nil, dedents_nil] at here behind start ⊢
      rw [List.cons_append, skipBlock]
      split
      · next opens =>
          simp only [opens, reduceIte, reduceCtorEq] at behind ⊢
          rw [ih fun before beginning => by have := behind before beginning; omega]
          congr 1
          omega
      · next closes =>
          simp only [closes, reduceIte, reduceCtorEq] at here behind ⊢
          rw [if_neg (by omega), ih fun before beginning => by have := behind before beginning; omega]
          congr 1
          omega
      · next opens closes =>
          simp only [if_neg opens, if_neg closes] at behind ⊢
          rw [ih fun before beginning => by have := behind before beginning; omega]
          congr 1
          omega

/-- The end of a statement is skipped and nothing more. -/
theorem Closes.synchronize {closing : List Token} (closes : Closes closing) (rest : List Token) :
    synchronize (closing ++ rest) = rest := by
  cases closes with
  | @line newline ends =>
      rw [List.singleton_append, Token.synchronize, ends]
  | @block indent dedent body opens inner _ closes =>
      have skips : skipBlock 1 (body ++ dedent :: rest) = rest := by
        have covered (before : List Token) (beginning : before <+: body) :
            dedents before < 1 + indents before := by
          have bound := inner.covered before beginning
          omega
        rw [skipBlock_append covered, inner.whole, Nat.add_sub_cancel, skipBlock, closes]
        rfl
      rw [List.cons_append, List.append_assoc, Token.synchronize, opens]
      dsimp only
      rw [skipBlock, opens]
      exact skips

/-- The words that start a statement. -/
def Kind.StartsStatement (kind : Kind) : Prop :=
  kind ∈ [.ifWord, .funcWord, .retWord, .letWord, .whileWord, .printWord]

instance (kind : Kind) : Decidable kind.StartsStatement :=
  inferInstanceAs (Decidable (kind ∈ _))

/-- Written tokens that start no statement are skipped. -/
theorem synchronize_append {skipped : List Token}
    (written : ∀ token ∈ skipped, token.kind.IsWritten)
    (bare : ∀ token ∈ skipped, ¬token.kind.StartsStatement) (rest : List Token) :
    synchronize (skipped ++ rest) = synchronize rest := by
  induction skipped with
  | nil => rfl
  | cons token skipped ih =>
      obtain ⟨here, others⟩ := List.forall_mem_cons.mp written
      obtain ⟨plain, further⟩ := List.forall_mem_cons.mp bare
      rw [← ih others further, List.cons_append, synchronize]
      cases kind : token.kind with
      | newline | indent | dedent | endOfFile => exact absurd here (by rw [kind]; decide)
      | ifWord | funcWord | retWord | letWord | whileWord | printWord =>
          exact absurd (by rw [kind]; decide) plain
      | _ => rfl

end Token

namespace Cursor

/-- A statement that failed inside of some tokens goes on behind what ends them. What is skipped comes after
its first token in any case. -/
theorem recover_rest {start failed : Cursor} {bad closing rest : List Token}
    (whole : start.rest = bad ++ (closing ++ rest)) (nonempty : bad ≠ [])
    (written : ∀ token ∈ bad, token.kind.IsWritten)
    (bare : ∀ token ∈ bad.tail, ¬token.kind.StartsStatement) (closes : Token.Closes closing)
    {passed unread : List Token} (inside : bad = passed ++ unread)
    (left : failed.rest = unread ++ (closing ++ rest)) (error : GrammarError) :
    (start.recover failed error).rest = rest := by
  obtain ⟨first, others, rfl⟩ := List.exists_cons_of_ne_nil nonempty
  have skips {skipped : List Token} (suffix : skipped <:+ others) :
      Token.synchronize (skipped ++ (closing ++ rest)) = rest := by
    rw [Token.synchronize_append (fun token member => written token (List.mem_cons_of_mem _
      (suffix.subset member))) (fun token member => bare token (suffix.subset member)),
      closes.synchronize]
  unfold recover
  dsimp only
  cases passed with
  | nil =>
      obtain rfl : unread = first :: others := inside.symm
      rw [if_pos (by rw [left, whole])]
      change Token.synchronize failed.rest.tail = rest
      rw [left]
      exact skips List.suffix_rfl
  | cons token passed =>
      obtain rfl : others = passed ++ unread := (List.cons.inj inside).2
      have shorter : failed.rest.length < start.rest.length := by
        rw [left, whole]
        simp only [List.length_append, List.length_cons]
        omega
      rw [if_neg (Nat.ne_of_lt shorter)]
      change Token.synchronize failed.rest = rest
      rw [left]
      exact skips (List.suffix_append passed unread)

/-- Without an end of file among them, the tokens in front are all read before the others. -/
theorem ofTokens_rest {left : List Token} (inside : ∀ token ∈ left, token.kind ≠ .endOfFile)
    (right : List Token) :
    (Cursor.ofTokens (left ++ right)).rest = left ++ (Cursor.ofTokens right).rest :=
  List.takeWhile_append_of_pos fun token member => decide_eq_true (inside token member)

/-- Tokens in front of a list are read before it. -/
theorem ofTokens_append {left right : List Token} (inside : ∀ token ∈ left, token.kind ≠ .endOfFile)
    (more : right ≠ []) :
    Cursor.ofTokens (left ++ right) = (Cursor.ofTokens right).before 0 left := by
  have found : left.find? (·.kind = .endOfFile) = none :=
    List.find?_eq_none.mpr fun token member => by simpa using inside token member
  have finish : (Cursor.ofTokens (left ++ right)).finish = (Cursor.ofTokens right).finish := by
    unfold ofTokens
    rw [List.find?_append, found, Option.none_or, List.getLast?_append_of_ne_nil _ more]
  unfold before
  rw [← finish, ← ofTokens_rest inside right]
  rfl

end Cursor

/-- The first token of what is read after statements starts no branch. -/
theorem Phrase.Opens.outside {trees : List Statement} {tokens : List Token}
    (opens : (Phrase.statements trees).Opens tokens) {next : Cursor}
    (plain : next.current.kind ∉ [.elifWord, .elseWord]) (node : NodeId) :
    (next.before node tokens).current.kind ∉ [.elifWord, .elseWord] := by
  cases tokens with
  | nil => exact plain
  | cons token others => exact fun found => opens token others rfl (List.mem_cons_of_mem _ found)

/-- Statements that are derived are read, and then what follows them. -/
theorem Derives.reads_before {first last : NodeId} {tokens : List Token} {trees : List Statement}
    (derives : Derives first tokens (.statements trees) last) {next after : Cursor}
    {rest : List Statement} {fuel : Nat} (ran : Reader.statements fuel false next = .ok rest after)
    (node : next.nextNode = last) (closed : next.finish.kind = .endOfFile)
    (plain : next.current.kind ∉ [.elifWord, .elseWord])
    (enough : 20 * tokens.length + 17 ≤ fuel + trees.length) :
    Reader.statements (fuel + trees.length) false (next.before first tokens) =
      .ok (trees ++ rest) after := by
  induction trees generalizing first tokens with
  | nil =>
      cases derives
      rw [Cursor.before_nil node]
      exact ran
  | cons tree trees ih =>
      cases derives with
      | @nextStatement _ second _ start others _ _ inner further =>
          obtain ⟨token, more, rfl, starts⟩ := inner.opens
          simp only [List.length_append, List.length_cons] at enough
          have behind := ih further (by omega)
          have outside := further.opens.outside plain second
          obtain ⟨less, count⟩ : ∃ less, fuel + trees.length = less + 1 :=
            ⟨fuel + trees.length - 1, by omega⟩
          have one := inner.reads (next.before second others) less rfl closed outside
            (by simp only [List.length_cons]; omega)
          rw [List.length_cons, ← Nat.add_assoc, Reader.statements, get_bind,
            Cursor.before_append next first (token :: more) second others,
            if_neg (by simp [Cursor.before]), count, bind_of_ok (Reader.attempt_of_ok one)]
          dsimp only
          rw [← count, bind_of_ok behind]
          rfl

namespace Reader

/-- Statements that were read once are read again with more fuel. -/
theorem statements_more {fuel more : Nat} (enough : fuel ≤ more) {nested : Bool}
    {start next : Cursor} {trees : List Statement}
    (ran : statements fuel nested start = .ok trees next) :
    statements more nested start = .ok trees next := by
  rcases (Goal.statements nested).read_more enough start with same | ⟨last, out⟩
  · exact same.trans ran
  · cases ran.symm.trans out

/-- A mistake is found with any fuel that is enough. -/
theorem statement_mistake {fuel more : Nat} {start failed : Cursor} {error : GrammarError}
    (closed : start.finish.kind = .endOfFile) (enough : 20 * start.rest.length + 15 ≤ more)
    (ran : statement fuel start = .error (.mistake error) failed) :
    statement more start = .error (.mistake error) failed := by
  rcases Nat.le_total fuel more with less | less
  · rcases Goal.statement.read_more less start with same | ⟨next, out⟩
    · exact same.trans ran
    · cases ran.symm.trans out
  · have settles := Goal.statement.finishes more start closed enough
    rcases Goal.statement.read_more less start with same | ⟨next, out⟩
    · exact same.symm.trans ran
    · rw [out] at settles
      exact settles.elim

/-- A statement with a mistake is left out. -/
theorem statements_after_mistake {fuel more nodes : Nat} {start failed last : Cursor}
    {error : GrammarError} {trees : List Statement} (closed : start.finish.kind = .endOfFile)
    (nonempty : start.rest ≠ []) (enough : 20 * start.rest.length + 15 ≤ more)
    (ran : statement fuel start = .error (.mistake error) failed)
    (goes : statements (more + 1) false ((start.recover failed error).behind nodes []) =
      .ok trees last) :
    statements (more + 1 + 1) false (start.behind nodes []) = .ok trees last := by
  have moved : Moved _ _ _ (statement more start) (statement more _) :=
    Goal.statement.moves (Relabeling.shift_steps 0 nodes) [] more start
  rw [statement_mistake closed enough ran, Cursor.moved_shift] at moved
  have fails : statement more (start.behind nodes []) =
      .error (.mistake error) (failed.behind nodes []) := by
    rw [← failed.moved_shift]
    exact moved
  rw [statements, get_bind, if_neg (by simpa [Cursor.behind] using nonempty),
    bind_of_ok (attempt_of_mistake fails), Cursor.behind_recover]
  exact goes

/-- Tokens are read behind others as they are read alone. -/
theorem statements_behind {tokens : List Token} {cursor : Cursor} {fuel : Nat}
    (ahead : cursor.rest = tokens.takeWhile (·.kind ≠ .endOfFile))
    (finish : cursor.rest ≠ [] → cursor.finish = (Cursor.ofTokens tokens).finish)
    (enough : enoughFuel tokens ≤ fuel) :
    ∃ last, statements fuel false cursor =
        .ok ((Program.ofTokens tokens).1.relabel (.shift 0 cursor.nextNode)) last ∧
      last.errors.reverse = cursor.errors.reverse ++ (Program.ofTokens tokens).2 := by
  obtain ⟨program, next, ran, read⟩ := Program.ofTokens_eq tokens
  rw [read]
  by_cases empty : cursor.rest = []
  · have stops (start : Cursor) (ended : start.rest = []) {more : Nat} (positive : 0 < more) :
        statements more false start = .ok [] start := by
      obtain ⟨more, rfl⟩ : ∃ less, more = less + 1 := ⟨more - 1, by omega⟩
      rw [statements, get_bind, if_pos (by simp [ended])]
      rfl
    have positive : 0 < enoughFuel tokens := by
      unfold enoughFuel
      omega
    have alone := stops (.ofTokens tokens) (ahead.symm.trans empty) positive
    obtain ⟨rfl, rfl⟩ : [] = program ∧ .ofTokens tokens = next := by
      rw [alone] at ran
      cases ran
      exact ⟨rfl, rfl⟩
    exact ⟨cursor, stops cursor empty (by omega), (List.append_nil _).symm⟩
  · have moved : Moved _ _ _ (statements fuel false _) (statements fuel false _) :=
      (Goal.statements false).moves (Relabeling.shift_steps 0 cursor.nextNode) cursor.errors fuel
        (.ofTokens tokens)
    have same : (Cursor.ofTokens tokens).behind cursor.nextNode cursor.errors = cursor := by
      have place : (Cursor.ofTokens tokens).rest = cursor.rest := ahead.symm
      unfold Cursor.behind
      rw [place, ← finish empty]
      simp [Cursor.ofTokens]
    rw [statements_more enough ran, Cursor.moved_shift, same] at moved
    refine ⟨_, moved, ?_⟩
    rw [Cursor.moved_shift]
    simp [Cursor.behind]

end Reader

/-- Enough fuel for all tokens is enough for the ones in front, for the broken statement and for what comes
after it. -/
theorem Reader.fuel_left {before rest after : List Token} {count : Nat}
    (fewer : count ≤ before.length) (shorter : after.length < rest.length) :
    ∃ less, enoughFuel (before ++ rest) = less + 1 + 1 + count ∧ 20 * rest.length + 15 ≤ less ∧
      20 * before.length + 17 ≤ less + 1 + 1 + count ∧ enoughFuel after ≤ less + 1 := by
  unfold enoughFuel
  rw [List.length_append]
  refine ⟨20 * (before.length + rest.length + 2) - 2 - count, ?_, ?_, ?_, ?_⟩ <;> omega

/-- There are at most as many statements as tokens. -/
theorem Derives.length_le {first last : NodeId} {tokens : List Token} {trees : List Statement}
    (derives : Derives first tokens (.statements trees) last) : trees.length ≤ tokens.length := by
  induction trees generalizing first tokens with
  | nil => exact Nat.zero_le _
  | cons tree trees ih =>
      cases derives with
      | nextStatement inner further =>
          obtain ⟨token, more, rfl, _⟩ := inner.opens
          have others := ih further
          simp only [List.length_append, List.length_cons]
          omega

namespace Cursor

/-- A cursor that did not get past some tokens is among them or at the token behind them. -/
theorem Reads.within {start next : Cursor} {passed bad rest : List Token}
    (reads : start.Reads passed next) (whole : start.rest = bad ++ rest)
    (short : start.rest.length ≤ next.rest.length + bad.length) :
    ∃ unread, bad = passed ++ unread ∧ next.rest = unread ++ rest := by
  have lengths := congrArg List.length reads.rest
  rw [List.length_append] at lengths
  have shape := whole.symm.trans reads.rest
  rcases List.append_eq_append_iff.mp shape with ⟨surplus, rfl, rfl⟩ | ⟨unread, rfl, left⟩
  · rw [List.length_append] at lengths
    have none : surplus = [] := List.length_eq_zero_iff.mp (by omega)
    subst none
    exact ⟨[], by simp, rfl⟩
  · exact ⟨unread, rfl, left⟩

end Cursor

/-- Some tokens and what ends a statement, which no statement is made of, since a mistake is found before
the end of the tokens. -/
structure BrokenStatement (bad closing after : List Token) : Prop where
  nonempty : bad ≠ []
  written : ∀ token ∈ bad, token.kind.IsWritten
  plain : ∀ token ∈ bad.head?, token.kind ∉ [.elifWord, .elseWord]
  bare : ∀ token ∈ bad.tail, ¬token.kind.StartsStatement
  closes : Token.Closes closing
  fails : ∃ fuel error failed,
    Reader.statement fuel (.ofTokens (bad ++ closing ++ after)) = .error (.mistake error) failed ∧
    (Cursor.ofTokens (bad ++ closing ++ after)).rest.length ≤ failed.rest.length + bad.length

namespace BrokenStatement

variable {bad closing after : List Token} (broken : BrokenStatement bad closing after)
include broken

/-- A broken statement does not end the file. -/
theorem inside : ∀ token ∈ bad ++ closing, token.kind ≠ .endOfFile :=
  List.forall_mem_append.mpr
    ⟨fun token member => (broken.written token member).ne (by decide), broken.closes.inside⟩

/-- Reading starts with the first token of the broken statement. -/
theorem current_mem : (Cursor.ofTokens (bad ++ closing ++ after)).current ∈ bad.head? := by
  obtain ⟨first, others, rfl⟩ := List.exists_cons_of_ne_nil broken.nonempty
  unfold Cursor.current
  rw [Cursor.ofTokens_rest broken.inside]
  rfl

/-- Reading goes on behind the statement, and what was reported stands in it. -/
theorem resumes : ∃ fuel error failed,
    Reader.statement fuel (.ofTokens (bad ++ closing ++ after)) = .error (.mistake error) failed ∧
    ((Cursor.ofTokens (bad ++ closing ++ after)).recover failed error).rest =
      (Cursor.ofTokens after).rest ∧
    (after ≠ [] → failed.finish = (Cursor.ofTokens after).finish) ∧
    ∀ report ∈ error :: failed.errors, report.IsAt (bad ++ closing.take 1) := by
  obtain ⟨fuel, error, failed, ran, short⟩ := broken.fails
  have ahead := Cursor.ofTokens_rest broken.inside after
  rw [List.append_assoc bad closing (Cursor.ofTokens after).rest] at ahead
  have closed := Cursor.ofTokens_closed (bad ++ closing ++ after)
  have finds := Reader.location.leads fuel .statement _ closed trivial
  rw [Goal.read, ran] at finds
  obtain ⟨passed, reports, reads, errors, located⟩ := finds
  obtain ⟨unread, shape, left⟩ := reads.within ahead short
  refine ⟨fuel, error, failed, ran, ?_, fun more => ?_, fun report member => ?_⟩
  · exact Cursor.recover_rest ahead broken.nonempty broken.written broken.bare broken.closes shape left
      error
  · rw [reads.finish, Cursor.ofTokens_append broken.inside more]
    rfl
  · have known : report ∈ [error] ++ reports := by
      rw [errors] at member
      simpa [Cursor.ofTokens] using member
    refine (located report known).mono (List.append_subset.mpr ⟨?_, ?_⟩)
    · rw [shape, List.append_assoc]
      exact List.subset_append_left _ _
    · obtain ⟨first, others, rfl⟩ := List.exists_cons_of_ne_nil broken.closes.ne_nil
      intro token here
      rw [List.mem_singleton.mp here, shape]
      unfold Cursor.current
      rw [left]
      cases unread <;> simp

end BrokenStatement

namespace Program

/-- A broken statement is contained. The statements before and after it are read as they are read alone,
up to the numbers of references. Its errors are reported at its tokens or at what ends it, before the
errors of what follows. -/
theorem ofTokens_around_mistake {before bad closing after : List Token}
    (inside : ∀ token ∈ before, token.kind ≠ .endOfFile) (clean : (ofTokens before).2 = [])
    (broken : BrokenStatement bad closing after) :
    ∃ reports nodes, reports ≠ [] ∧ (∀ report ∈ reports, report.IsAt (bad ++ closing.take 1)) ∧
      ofTokens (before ++ bad ++ closing ++ after) =
        ((ofTokens before).1 ++ (ofTokens after).1.relabel (.shift 0 nodes),
          reports ++ (ofTokens after).2) := by
  obtain ⟨fuel, error, failed, ran, rest, finish, located⟩ := broken.resumes
  have derives := derives_allocated clean
  rw [List.takeWhile_eq_self_iff.mpr (by simpa using inside)] at derives
  have closed := Cursor.ofTokens_closed (bad ++ closing ++ after)
  have outside := broken.plain _ broken.current_mem
  have nonempty : (Cursor.ofTokens (bad ++ closing ++ after)).rest ≠ [] := by
    rw [Cursor.ofTokens_rest broken.inside]
    simp [broken.nonempty]
  have shorter : (Cursor.ofTokens (bad ++ closing ++ after)).rest.length ≤
      (bad ++ closing ++ after).length := (List.takeWhile_sublist _).length_le
  have broad : after.length < (bad ++ closing ++ after).length := by
    have positive := List.length_pos_iff.mpr broken.nonempty
    simp only [List.length_append]
    omega
  have more : bad ++ closing ++ after ≠ [] := by simp [broken.nonempty]
  have same := Cursor.ofTokens_append inside more
  rw [List.append_assoc before, List.append_assoc before]
  generalize bad ++ closing ++ after = tokens at *
  obtain ⟨fuel, total, first, second, third⟩ := Reader.fuel_left derives.length_le broad
  let resumed := ((Cursor.ofTokens tokens).recover failed error).behind (allocated before) []
  have ahead : resumed.rest = (Cursor.ofTokens after).rest := rest
  have finishes : resumed.rest ≠ [] → resumed.finish = (Cursor.ofTokens after).finish := by
    intro further
    refine (Cursor.follows_recover _ failed error).finish.trans (finish ?_)
    rintro rfl
    exact further ahead
  obtain ⟨last, goes, reported⟩ := Reader.statements_behind ahead finishes third
  have around := Reader.statements_after_mistake closed nonempty
    (Nat.le_trans (by omega) first) ran goes
  have whole := derives.reads_before around (Nat.zero_add _) closed outside second
  have start : ((Cursor.ofTokens tokens).behind (allocated before) []).before 0 before =
      .ofTokens (before ++ tokens) := same.symm
  rw [start, ← total] at whole
  have errors : resumed.errors = error :: failed.errors := by
    simp [resumed, Cursor.behind, Cursor.recover_errors]
  refine ⟨resumed.errors.reverse, resumed.nextNode, by simp [errors], fun report member => ?_, ?_⟩
  · rw [List.mem_reverse, errors] at member
    exact located report member
  · obtain ⟨program, final, read, result⟩ := ofTokens_eq (before ++ tokens)
    rw [whole] at read
    cases read
    rw [result, reported]

/-- A wrong target and a bracket that nothing opened are reported, the block behind them is skipped, and
then a branch without a condition is a mistake of its own. -/
theorem ofTokens_around_mistake_block :
    let before : List Token := [.structural .printWord 1, .structural .identifier 1,
      .structural .newline 1]
    let bad : List Token := [.structural .identifier 2, .structural .plus 2,
      .structural .identifier 2, .structural .equal 2, .structural .identifier 2,
      .structural .rightParen 2]
    let closing : List Token := [.structural .indent 3, .structural .breakWord 3,
      .structural .newline 3, .structural .dedent 4]
    let after : List Token := [.structural .elseWord 4, .structural .newline 4,
      .structural .printWord 5, .structural .identifier 5, .structural .newline 5,
      .structural .endOfFile 5]
    BrokenStatement bad closing after ∧ (ofTokens after).2.length = 1 ∧
      ∃ reports nodes, reports ≠ [] ∧ (∀ report ∈ reports, report.IsAt (bad ++ closing.take 1)) ∧
        ofTokens (before ++ bad ++ closing ++ after) =
          ((ofTokens before).1 ++ (ofTokens after).1.relabel (.shift 0 nodes),
            reports ++ (ofTokens after).2) := by
  intro before bad closing after
  have closes : Token.Closes closing :=
    @Token.Closes.block _ _ [.structural .breakWord 3, .structural .newline 3] rfl (by decide)
      (by decide) rfl
  have broken : BrokenStatement bad closing after :=
    ⟨by decide, by decide, by decide, by decide, closes, 40, _, _, rfl, by decide⟩
  exact ⟨broken, by decide, ofTokens_around_mistake (by decide) (by decide) broken⟩

end Program

end OffsideScript
