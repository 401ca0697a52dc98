import OffsideScript.Proofs.Token.IdleLines
import OffsideScript.Proofs.Token.Nesting

namespace OffsideScript

namespace Token

/-- Tokens that are all line ends. -/
def AreNewlines (tokens : List Token) : Prop :=
  ∀ token ∈ tokens, token.kind = .newline

/-- A line end is followed neither by a line end nor by the start of a block. -/
def MayPrecede (token next : Token) : Prop :=
  token.kind = .newline → next.kind ∉ [.newline, .indent]

/-- Token lists that differ in the lengths of their runs of line ends only. -/
inductive SameRuns : List Token → List Token → Prop where
  | nil : SameRuns [] []
  | visible {token : Token} {left right : List Token} (other : token.kind ≠ .newline)
      (rest : SameRuns left right) : SameRuns (token :: left) (token :: right)
  | run {newlines others left right : List Token} (some : newlines ≠ []) (more : others ≠ [])
      (ends : AreNewlines newlines) (again : AreNewlines others) (rest : SameRuns left right) :
      SameRuns (newlines ++ left) (others ++ right)

/-- What is left of the line ends in front of a token. -/
def keptBefore (newlines : List Token) (next : Token) : List Token :=
  if next.kind = .indent then [] else newlines.getLast?.toList

section Joining

variable {token next : Token} {newlines rest : List Token}

/-- Line ends in a row are joined to the last one. -/
theorem joinNewlines_run (ends : AreNewlines newlines) (rest : List Token) :
    joinNewlines (newlines ++ rest) = joinNewlines (newlines.getLast?.toList ++ rest) := by
  induction newlines with
  | nil => rfl
  | cons newline newlines ih =>
      cases newlines with
      | nil => rfl
      | cons second newlines =>
          obtain ⟨here, others⟩ := List.forall_mem_cons.mp ends
          have again : second.kind ∈ [.newline, .indent] := by
            simp [others second List.mem_cons_self]
          rw [List.getLast?_cons_cons, ← ih others]
          exact joinNewlines_drop here again

/-- Of line ends in front of a token those are kept that it leaves. -/
theorem joinNewlines_gap (ends : AreNewlines newlines) (visible : next.kind ≠ .newline) :
    joinNewlines (newlines ++ next :: rest) =
      keptBefore newlines next ++ next :: joinNewlines rest := by
  have starts := joinNewlines_cons visible rest
  rw [joinNewlines_run ends, keptBefore]
  cases last : newlines.getLast? with
  | none => simp [starts]
  | some newline =>
      have newlineKind := ends newline (List.mem_of_getLast? last)
      split
      · next opens => exact (joinNewlines_drop newlineKind (by simp [opens])).trans starts
      · next inside =>
          refine (joinNewlines_keep ?_).trans (congrArg (newline :: ·) starts)
          simp [visible, inside]

/-- Of line ends at the end of a list the last one is kept. -/
theorem joinNewlines_end (ends : AreNewlines newlines) :
    joinNewlines newlines = newlines.getLast?.toList := by
  have joined := joinNewlines_run ends []
  rw [List.append_nil, List.append_nil] at joined
  rw [joined]
  cases newlines.getLast? <;> rfl

/-- No line end is followed by another one or by a block after joining. -/
theorem joinNewlines_mayPrecede (tokens : List Token) : (joinNewlines tokens).IsChain MayPrecede := by
  fun_induction joinNewlines tokens with
  | case1 => exact .nil
  | case2 token => exact .singleton token
  | case3 token next rest _ ih => exact ih
  | case4 token next rest kept ih =>
      refine ih.cons fun first known ends => ?_
      have other : next.kind ∉ [.newline, .indent] := fun again => kept ⟨ends, by simpa using again⟩
      have visible : next.kind ≠ .newline := fun newline => other (by simp [newline])
      rw [joinNewlines_cons visible] at known
      cases known
      exact other

/-- Tokens without such line ends stay as they are. -/
theorem joinNewlines_eq_self {tokens : List Token} (chain : tokens.IsChain MayPrecede) :
    joinNewlines tokens = tokens := by
  fun_induction joinNewlines tokens with
  | case1 => rfl
  | case2 token => rfl
  | case3 token next rest dropped ih =>
      have parts := (List.isChain_cons_cons.mp chain).1 dropped.1
      exact absurd (by simpa using dropped.2) parts
  | case4 token next rest _ ih => rw [ih chain.tail]

end Joining

section Layout

variable {before after newlines : List Token} {token next : Token}

/-- The layout does not start with a line end. -/
theorem layout_head (tokens : List Token) : ∀ first ∈ (layout tokens).head?, first.kind ≠ .newline := by
  unfold layout
  intro first known
  have starts := List.head?_dropWhile_not (fun token : Token => decide (token.kind = .newline)) tokens
  cases left : tokens.dropWhile (·.kind = .newline) with
  | nil =>
      rw [left] at known
      cases known
  | cons head rest =>
      rw [left] at known starts
      have visible : head.kind ≠ .newline := by simpa using starts
      rw [joinNewlines_cons visible] at known
      cases known
      exact visible

/-- Laying out twice is laying out once. -/
theorem layout_idempotent (tokens : List Token) : layout (layout tokens) = layout tokens := by
  have starts : (layout tokens).dropWhile (·.kind = .newline) = layout tokens := by
    have head := layout_head tokens
    cases laid : layout tokens with
    | nil => rfl
    | cons first rest =>
        rw [laid] at head
        exact List.dropWhile_cons_of_neg (by simpa using head first rfl)
  rw [layout, starts]
  exact joinNewlines_eq_self (joinNewlines_mayPrecede _)

/-- The last token is kept. -/
theorem joinNewlines_concat (before : List Token) (token : Token) :
    ∃ early, joinNewlines (before ++ [token]) = early ++ [token] ∧ visible early = visible before := by
  induction before with
  | nil => exact ⟨[], rfl, rfl⟩
  | cons head before ih =>
      obtain ⟨early, joined, same⟩ := ih
      obtain ⟨next, rest, split⟩ : ∃ next rest, before ++ [token] = next :: rest :=
        List.exists_cons_of_ne_nil (by simp)
      rw [split] at joined
      rw [List.cons_append, split, joinNewlines]
      split
      · next dropped =>
          refine ⟨early, joined, same.trans ?_⟩
          simp [visible, dropped.1]
      · refine ⟨head :: early, by rw [joined, List.cons_append], ?_⟩
        simp only [visible, List.filter_cons] at same ⊢
        rw [same]

/-- A token that ends no line is kept, and what stands before it has no part in how the rest is joined. -/
theorem layout_split (other : token.kind ≠ .newline) (before rest : List Token) :
    ∃ early, layout (before ++ token :: rest) = early ++ token :: joinNewlines rest ∧
      visible early = visible before := by
  obtain ⟨early, joined, same⟩ := joinNewlines_concat (before.dropWhile (·.kind = .newline)) token
  refine ⟨early, ?_, same.trans ?_⟩
  · rw [layout, dropWhile_newlines other, joinNewlines_after other, joined]
    simp
  · have dropped : AreNewlines (before.takeWhile (·.kind = .newline)) :=
      fun newline member => by simpa using List.mem_takeWhile_imp member
    rw [← visible_newlines dropped, List.takeWhile_append_dropWhile]

/-- Between two tokens the layout leaves at most one line end. -/
theorem layout_between (other : token.kind ≠ .newline) (ends : AreNewlines newlines)
    (again : next.kind ≠ .newline) (before after : List Token) :
    ∃ early late, layout (before ++ token :: (newlines ++ next :: after)) =
        early ++ token :: (keptBefore newlines next ++ next :: late) ∧
      visible early = visible before ∧ visible late = visible after := by
  obtain ⟨early, laid, same⟩ := layout_split other before (newlines ++ next :: after)
  rw [joinNewlines_gap ends again] at laid
  exact ⟨early, joinNewlines after, laid, same, joinNewlines_visible after⟩

/-- Behind the last token the layout leaves at most one line end. -/
theorem layout_last (other : token.kind ≠ .newline) (ends : AreNewlines newlines)
    (before : List Token) :
    ∃ early, layout (before ++ token :: newlines) = early ++ token :: newlines.getLast?.toList ∧
      visible early = visible before := by
  obtain ⟨early, laid, same⟩ := layout_split other before newlines
  rw [joinNewlines_end ends] at laid
  exact ⟨early, laid, same⟩

/-- In front of the first token the layout leaves no line end. -/
theorem layout_first (ends : AreNewlines newlines) (other : next.kind ≠ .newline)
    (after : List Token) :
    ∃ late, layout (newlines ++ next :: after) = next :: late ∧ visible late = visible after := by
  rw [layout_newlines ends other, joinNewlines_cons other]
  exact ⟨joinNewlines after, rfl, joinNewlines_visible after⟩

end Layout

namespace SameRuns

variable {left right newlines others : List Token}

/-- Tokens with the same runs have them without the first run. -/
theorem dropWhile (same : SameRuns left right) :
    SameRuns (left.dropWhile (·.kind = .newline)) (right.dropWhile (·.kind = .newline)) := by
  induction same with
  | nil => exact .nil
  | visible other rest _ =>
      rw [List.dropWhile_cons_of_neg (by simpa using other),
        List.dropWhile_cons_of_neg (by simpa using other)]
      exact .visible other rest
  | run _ _ ends again _ ih =>
      rwa [List.dropWhile_append_of_pos (by simpa [AreNewlines] using ends),
        List.dropWhile_append_of_pos (by simpa [AreNewlines] using again)]

/-- The kinds that joining starts from. -/
theorem head (same : SameRuns left right) :
    left.head?.map (·.kind) = right.head?.map (·.kind) := by
  induction same with
  | nil => rfl
  | visible _ _ _ => rfl
  | @run newlines others _ _ some more ends again _ _ =>
      obtain ⟨newline, newlines, rfl⟩ := List.exists_cons_of_ne_nil some
      obtain ⟨other, others, rfl⟩ := List.exists_cons_of_ne_nil more
      simp [ends newline List.mem_cons_self, again other List.mem_cons_self]

/-- A single line end is kept or dropped by the kind of what follows it. -/
theorem kinds_newline {newline other : Token} (ends : newline.kind = .newline)
    (again : other.kind = .newline) (heads : left.head?.map (·.kind) = right.head?.map (·.kind))
    (same : (joinNewlines left).map (·.kind) = (joinNewlines right).map (·.kind)) :
    (joinNewlines (newline :: left)).map (·.kind) = (joinNewlines (other :: right)).map (·.kind) := by
  cases left with
  | nil =>
      cases right with
      | nil => simp [joinNewlines, ends, again]
      | cons _ _ => simp at heads
  | cons next left =>
      cases right with
      | nil => simp at heads
      | cons follower right =>
          have kind : next.kind = follower.kind := by simpa using heads
          rw [joinNewlines, joinNewlines, ends, again, kind]
          split
          · exact same
          · simp [same, ends, again]

/-- Tokens with the same runs are joined to the same kinds. Each run counts as its last line end. -/
theorem kinds (same : SameRuns left right) :
    (joinNewlines left).map (·.kind) = (joinNewlines right).map (·.kind) := by
  induction same with
  | nil => rfl
  | visible other _ ih => simp [joinNewlines_cons other, ih]
  | @run newlines others _ _ some more ends again rest ih =>
      have last := List.getLast?_eq_getLast_of_ne_nil some
      have final := List.getLast?_eq_getLast_of_ne_nil more
      rw [joinNewlines_run ends, joinNewlines_run again, last, final]
      exact kinds_newline (ends _ (List.getLast_mem some)) (again _ (List.getLast_mem more))
        rest.head ih

end SameRuns

/-- The layout keeps all tokens but line ends in order. Its result does not start with a line end, and no line
end in it is followed by another one or by the start of a block. Between two tokens it leaves one line end, the
last one, if there was one and no block starts there, and otherwise none; behind the last token it leaves one if
there was one, and in front of the first token none. To lay out again changes nothing, and the lengths of runs
of line ends do not matter for the kinds. -/
theorem layout_separates (tokens : List Token) :
    visible (layout tokens) = visible tokens ∧
    (∀ first ∈ (layout tokens).head?, first.kind ≠ .newline) ∧
    (layout tokens).IsChain MayPrecede ∧
    (∀ before newlines after token next, tokens = before ++ token :: (newlines ++ next :: after) →
      token.kind ≠ .newline → AreNewlines newlines → next.kind ≠ .newline →
      ∃ early late, layout tokens = early ++ token :: (keptBefore newlines next ++ next :: late) ∧
        visible early = visible before ∧ visible late = visible after) ∧
    (∀ before newlines token, tokens = before ++ token :: newlines → token.kind ≠ .newline →
      AreNewlines newlines →
      ∃ early, layout tokens = early ++ token :: newlines.getLast?.toList ∧
        visible early = visible before) ∧
    (∀ newlines after next, tokens = newlines ++ next :: after → AreNewlines newlines →
      next.kind ≠ .newline → ∃ late, layout tokens = next :: late ∧ visible late = visible after) ∧
    layout (layout tokens) = layout tokens ∧
    ∀ others, SameRuns tokens others →
      (layout others).map (·.kind) = (layout tokens).map (·.kind) := by
  refine ⟨layout_visible tokens, layout_head tokens, joinNewlines_mayPrecede _, ?_, ?_, ?_,
    layout_idempotent tokens, fun others same => same.dropWhile.kinds.symm⟩
  · rintro before newlines after token next rfl other ends again
    exact layout_between other ends again before after
  · rintro before newlines token rfl other ends
    exact layout_last other ends before
  · rintro newlines after next rfl ends other
    exact layout_first ends other after

end Token

end OffsideScript
