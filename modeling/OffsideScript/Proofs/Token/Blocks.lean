import OffsideScript.Proofs.Token.Nesting
import OffsideScript.Proofs.Token.Offside

namespace OffsideScript

/-- The blocks that are open, innermost first. Blocks are numbered in the order in which they open. -/
structure Blocks where
  opened : Nat
  nested : List Nat
  deriving DecidableEq, Repr

namespace Blocks

/-- A token opens a block or closes one. -/
def turn (blocks : Blocks) (token : Token) : Blocks :=
  match token.kind with
  | .indent => ⟨blocks.opened + 1, blocks.opened :: blocks.nested⟩
  | .dedent => ⟨blocks.opened, blocks.nested.tail⟩
  | _ => blocks

/-- The blocks behind some tokens. -/
def run (blocks : Blocks) (tokens : List Token) : Blocks :=
  tokens.foldl turn blocks

/-- At first no block has been opened. -/
def start : Blocks := ⟨0, []⟩

/-- Blocks are opened and closed along the tokens. -/
theorem run_append (blocks : Blocks) (early late : List Token) :
    blocks.run (early ++ late) = (blocks.run early).run late :=
  List.foldl_append

/-- Any other token changes no block. -/
theorem turn_plain {token : Token} (opens : token.kind ≠ .indent) (closes : token.kind ≠ .dedent)
    (blocks : Blocks) : blocks.turn token = blocks := by
  unfold turn
  split <;> trivial

/-- Tokens that open and close nothing change no block. -/
theorem run_plain {tokens : List Token}
    (plain : ∀ token ∈ tokens, token.kind ≠ .indent ∧ token.kind ≠ .dedent) (blocks : Blocks) :
    blocks.run tokens = blocks := by
  induction tokens with
  | nil => rfl
  | cons token rest ih =>
      obtain ⟨here, others⟩ := List.forall_mem_cons.mp plain
      change (blocks.turn token).run rest = blocks
      rw [turn_plain here.1 here.2, ih others]

/-- Dedents close as many blocks. -/
theorem run_dedents (blocks : Blocks) (count line : Nat) :
    blocks.run (List.replicate count (Token.structural .dedent line)) =
      ⟨blocks.opened, blocks.nested.drop count⟩ := by
  induction count generalizing blocks with
  | zero => rfl
  | succ count ih =>
      rw [List.replicate_succ]
      refine (ih _).trans ?_
      simp [turn, Token.structural_kind]

/-- A wider line opens a block, and any other closes the blocks that are wider. -/
theorem run_enter (blocks : Blocks) (margin : Margin) (width line : Nat) :
    blocks.run ((margin.enter width line).2.filterMap Mark.token?) =
      if margin.width < width then ⟨blocks.opened + 1, blocks.opened :: blocks.nested⟩
      else ⟨blocks.opened, blocks.nested.drop (margin.length - (margin.close width).length)⟩ := by
  rw [Margin.enter_tokens]
  split
  · rfl
  · exact run_dedents blocks _ line

/-- The open blocks are different ones and all have been opened. -/
structure Sound (blocks : Blocks) : Prop where
  below : ∀ block ∈ blocks.nested, block < blocks.opened
  nodup : blocks.nested.Nodup

/-- A block that was opened and is open no more. -/
def Closed (block : Nat) (blocks : Blocks) : Prop :=
  block < blocks.opened ∧ block ∉ blocks.nested

/-- A token leaves the blocks sound. -/
theorem Sound.turn {blocks : Blocks} (sound : blocks.Sound) (token : Token) :
    (blocks.turn token).Sound := by
  obtain ⟨below, nodup⟩ := sound
  unfold Blocks.turn
  split
  · refine ⟨fun block member => ?_, List.nodup_cons.mpr ⟨fun member => ?_, nodup⟩⟩
    · rcases List.mem_cons.mp member with rfl | nested
      · exact Nat.lt_succ_self _
      · exact Nat.lt_succ_of_lt (below block nested)
    · exact Nat.lt_irrefl _ (below _ member)
  · exact ⟨fun block member => below block (List.mem_of_mem_tail member), nodup.tail⟩
  · exact ⟨below, nodup⟩

/-- Tokens leave the blocks sound. -/
theorem Sound.run {blocks : Blocks} (sound : blocks.Sound) (tokens : List Token) :
    (blocks.run tokens).Sound := by
  induction tokens generalizing blocks with
  | nil => exact sound
  | cons token rest ih => exact ih (sound.turn token)

/-- A block that is closed stays so. -/
theorem Closed.turn {block : Nat} {blocks : Blocks} (closed : Closed block blocks) (token : Token) :
    Closed block (blocks.turn token) := by
  obtain ⟨below, absent⟩ := closed
  unfold Blocks.turn
  split
  · refine ⟨Nat.lt_succ_of_lt below, fun member => ?_⟩
    rcases List.mem_cons.mp member with rfl | nested
    · exact Nat.lt_irrefl _ below
    · exact absent nested
  · exact ⟨below, fun member => absent (List.mem_of_mem_tail member)⟩
  · exact ⟨below, absent⟩

/-- Blocks are not opened twice. -/
theorem Closed.run {block : Nat} {blocks : Blocks} (closed : Closed block blocks)
    (tokens : List Token) : Closed block (blocks.run tokens) := by
  induction tokens generalizing blocks with
  | nil => exact closed
  | cons token rest ih => exact ih (closed.turn token)

/-- The blocks behind some lines. -/
def behind (blocks : Blocks) (margin : Margin) (entries : List ContentLine) : Blocks :=
  blocks.run ((margin.shifts entries).filterMap Mark.token?)

/-- The blocks behind a line and those after it. -/
theorem behind_cons (blocks : Blocks) (margin : Margin) (entry : ContentLine)
    (rest : List ContentLine) :
    blocks.behind margin (entry :: rest) =
      (blocks.run ((margin.enter entry.width entry.line).2.filterMap Mark.token?)).behind
        (margin.enter entry.width entry.line).1 rest := by
  unfold behind
  rw [Margin.shifts, List.filterMap_append, run_append]

/-- The blocks behind lines are found one after another. -/
theorem behind_append (blocks : Blocks) (margin : Margin) (early late : List ContentLine) :
    blocks.behind margin (early ++ late) =
      (blocks.behind margin early).behind (margin.through early) late := by
  unfold behind
  rw [Margin.shifts_append, List.filterMap_append, run_append]

/-- Inside of some blocks other blocks have been opened since, all wider, each with its number and its
width. -/
structure Within (outer : Margin) (before : Blocks) (inner : List (Nat × Nat)) (margin : Margin)
    (blocks : Blocks) : Prop where
  margin : margin = inner.map Prod.snd ++ outer
  nested : blocks.nested = inner.map Prod.fst ++ before.nested
  wider : ∀ block ∈ inner, before.opened ≤ block.1 ∧ outer.width < block.2
  opened : before.opened ≤ blocks.opened

theorem Within.refl (margin : Margin) (blocks : Blocks) : Within margin blocks [] margin blocks :=
  ⟨rfl, rfl, by simp, Nat.le_refl _⟩

/-- Of the blocks inside, the last ones are closed first. -/
theorem close_inner {outer : Margin} {width : Nat} (bound : outer.width ≤ width)
    (inner : List (Nat × Nat)) :
    ∃ dropped kept, inner = dropped ++ kept ∧
      Margin.close width (inner.map Prod.snd ++ outer) = kept.map Prod.snd ++ outer := by
  induction inner with
  | nil =>
      refine ⟨[], [], rfl, ?_⟩
      cases outer with
      | nil => rfl
      | cons head outer => exact if_neg (Nat.not_lt_of_le bound)
  | cons block inner ih =>
      by_cases closes : width < block.2
      · obtain ⟨dropped, kept, rfl, closed⟩ := ih
        exact ⟨block :: dropped, kept, rfl, (if_pos closes).trans closed⟩
      · exact ⟨[], block :: inner, rfl, if_neg closes⟩

/-- Wider blocks are closed before others. -/
theorem close_wide {wide : Margin} {width : Nat} (all : ∀ other ∈ wide, width < other)
    (outer : Margin) : Margin.close width (wide ++ outer) = outer.close width := by
  induction wide with
  | nil => rfl
  | cons other wide ih =>
      obtain ⟨here, others⟩ := List.forall_mem_cons.mp all
      exact (if_pos here).trans (ih others)

section Entering

variable {outer margin : Margin} {before blocks : Blocks} {inner : List (Nat × Nat)}

/-- The margin is not narrower than the outer blocks. -/
theorem Within.width_le (within : Within outer before inner margin blocks) :
    outer.width ≤ margin.width := by
  rw [within.margin]
  cases inner with
  | nil => exact Nat.le_refl _
  | cons block inner => exact Nat.le_of_lt (within.wider block List.mem_cons_self).2

/-- The innermost block is still the same if no other has been opened inside of it. -/
theorem Within.head_iff (within : Within outer before inner margin blocks) (sound : before.Sound) :
    before.nested.head? = blocks.nested.head? ↔ outer.width = margin.width := by
  rw [within.margin, within.nested]
  cases inner with
  | nil => simp
  | cons block inner =>
      obtain ⟨newer, wider⟩ := within.wider block List.mem_cons_self
      constructor
      · intro same
        have known := sound.below block.1 (List.mem_of_mem_head? same)
        omega
      · intro same
        change outer.width = block.2 at same
        omega

/-- A line that is not narrower keeps the outer blocks. -/
theorem Within.step (within : Within outer before inner margin blocks) {width : Nat}
    (bound : outer.width ≤ width) (line : Nat) :
    ∃ after, Within outer before after (margin.enter width line).1
      (blocks.run ((margin.enter width line).2.filterMap Mark.token?)) := by
  rw [run_enter]
  unfold Margin.enter
  by_cases opens : margin.width < width
  · rw [if_pos opens, if_pos opens]
    have least := within.width_le
    refine ⟨(blocks.opened, width) :: inner, ?_, ?_, ?_, ?_⟩
    · simp [within.margin]
    · simp [within.nested]
    · exact List.forall_mem_cons.mpr ⟨⟨within.opened, Nat.lt_of_le_of_lt least opens⟩, within.wider⟩
    · exact Nat.le_succ_of_le within.opened
  · rw [if_neg opens, if_neg opens]
    obtain ⟨dropped, kept, rfl, closed⟩ := close_inner bound inner
    have count : margin.length - (margin.close width).length = dropped.length := by
      rw [within.margin, closed]
      simp
    refine ⟨kept, ?_, ?_, ?_, within.opened⟩
    · simp only [within.margin, closed]
    · simp only [count, within.nested, List.map_append, List.append_assoc]
      rw [List.drop_left' (List.length_map _)]
    · exact fun block member => within.wider block (List.mem_append_right _ member)

/-- A narrower line closes the innermost of the outer blocks. -/
theorem Within.narrower (within : Within outer before inner margin blocks) (sound : blocks.Sound)
    (paired : before.nested.length = outer.length) {width : Nat} (narrow : width < outer.width)
    (line : Nat) :
    ∃ block, before.nested.head? = some block ∧
      Closed block (blocks.run ((margin.enter width line).2.filterMap Mark.token?)) := by
  have least := within.width_le
  rw [run_enter, if_neg (by omega)]
  obtain ⟨head, around, rfl⟩ : ∃ head around, outer = head :: around := by
    cases outer with
    | nil => exact absurd narrow (Nat.not_lt_zero width)
    | cons head around => exact ⟨head, around, rfl⟩
  obtain ⟨block, rest, numbers⟩ : ∃ block rest, before.nested = block :: rest :=
    List.exists_cons_of_length_eq_add_one paired
  refine ⟨block, by rw [numbers]; rfl, ?_⟩
  have nested := within.nested
  rw [numbers, List.append_cons] at nested
  have member : block ∈ blocks.nested := by simp [nested]
  refine ⟨sound.below block member, fun still => ?_⟩
  have gone : inner.length + 1 ≤ margin.length - (margin.close width).length := by
    have wide : ∀ other ∈ inner.map Prod.snd ++ [head], width < other := by
      simp only [List.forall_mem_append, List.forall_mem_map, List.forall_mem_singleton]
      exact ⟨fun inside member => Nat.lt_trans narrow (within.wider inside member).2, narrow⟩
    have short := (Margin.close_suffix around width).length_le
    rw [within.margin, List.append_cons, close_wide wide]
    simp only [List.length_append, List.length_map, List.length_cons, List.length_nil]
    omega
  have kept := (List.drop_sublist_drop_left blocks.nested gone).subset still
  have nodup := sound.nodup
  rw [nested] at kept nodup
  rw [List.drop_left' (by simp)] at kept
  exact (List.nodup_append.mp nodup).2.2 block (by simp) block kept rfl

/-- Lines that are not narrower keep the outer blocks. -/
theorem Within.run (within : Within outer before inner margin blocks) {entries : List ContentLine}
    (bound : ∀ entry ∈ entries, outer.width ≤ entry.width) :
    ∃ after, Within outer before after (margin.through entries) (blocks.behind margin entries) := by
  induction entries generalizing margin blocks inner with
  | nil => exact ⟨inner, within⟩
  | cons entry rest ih =>
      obtain ⟨here, others⟩ := List.forall_mem_cons.mp bound
      obtain ⟨after, stepped⟩ := within.step here entry.line
      rw [behind_cons]
      exact ih stepped others

/-- The innermost of the outer blocks is closed once a line is narrower. -/
theorem Within.closed (within : Within outer before inner margin blocks) (sound : blocks.Sound)
    (paired : before.nested.length = outer.length) {entries : List ContentLine}
    (narrower : ∃ entry ∈ entries, entry.width < outer.width) :
    ∃ block, before.nested.head? = some block ∧ Closed block (blocks.behind margin entries) := by
  induction entries generalizing margin blocks inner with
  | nil => simp at narrower
  | cons entry rest ih =>
      rw [behind_cons]
      by_cases bound : outer.width ≤ entry.width
      · obtain ⟨after, stepped⟩ := within.step bound entry.line
        refine ih stepped (sound.run _) ?_
        simpa [Nat.not_lt_of_le bound] using narrower
      · obtain ⟨block, head, closed⟩ :=
          within.narrower sound paired (Nat.lt_of_not_le bound) entry.line
        exact ⟨block, head, closed.run _⟩

end Entering

/-- No block is open at the start. -/
theorem start_sound : start.Sound :=
  ⟨by simp [start], by simp [start]⟩

/-- Each open block has a width. -/
theorem start_paired (entries : List ContentLine) :
    (start.behind [] entries).nested.length = (Margin.through [] entries).length := by
  have bound : ∀ entry ∈ entries, Margin.width [] ≤ entry.width := fun _ _ => Nat.zero_le _
  obtain ⟨inner, within⟩ := (Within.refl [] start).run bound
  rw [within.margin, within.nested]
  simp [start]

/-- If all lines fit, two lines are in the same block exactly if they have the same width and no line
between them is narrower. -/
theorem same_iff {done between : List ContentLine} {first last : ContentLine}
    (fit : Margin.misfits [] (done ++ [first] ++ (between ++ [last])) = []) :
    (start.behind [] (done ++ [first])).nested.head? =
        (start.behind [] (done ++ [first] ++ (between ++ [last]))).nested.head? ↔
      first.width = last.width ∧ ∀ entry ∈ between, first.width ≤ entry.width := by
  have early : Margin.misfits [] (done ++ [first]) = [] := by
    rw [Margin.misfits_append, List.append_eq_nil_iff] at fit
    exact fit.1
  have width := Margin.through_width early
  have final : (Margin.through [] (done ++ [first] ++ (between ++ [last]))).width = last.width := by
    rw [← List.append_assoc] at fit ⊢
    exact Margin.through_width fit
  have sound : (start.behind [] (done ++ [first])).Sound := start_sound.run _
  have paired := start_paired (done ++ [first])
  rw [behind_append start [] (done ++ [first])]
  rw [Margin.through_append] at final
  generalize start.behind [] (done ++ [first]) = before at *
  generalize Margin.through [] (done ++ [first]) = outer at *
  by_cases kept : ∀ entry ∈ between ++ [last], outer.width ≤ entry.width
  · obtain ⟨inner, within⟩ := (Within.refl outer before).run kept
    rw [within.head_iff sound, width, final]
    rw [List.forall_mem_append, width] at kept
    exact (and_iff_left kept.1).symm
  · have narrower : ∃ entry ∈ between ++ [last], entry.width < outer.width := by
      simpa using kept
    obtain ⟨block, head, closed⟩ := (Within.refl outer before).closed sound paired narrower
    rw [head]
    constructor
    · intro same
      exact absurd (List.mem_of_mem_head? same.symm) closed.2
    · rintro ⟨same, wide⟩
      rw [← width] at same wide
      refine absurd (List.forall_mem_append.mpr ⟨wide, ?_⟩) kept
      simp [same]

end Blocks

end OffsideScript
