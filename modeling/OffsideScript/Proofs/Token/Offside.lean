import OffsideScript.Proofs.Token.Content

namespace OffsideScript

/-- The line whose start matches no open block, for a fault of this kind. -/
def LexicalError.misfit? : LexicalError → Option ContentLine
  | unmatchedIndentation width line => some ⟨line, width⟩
  | _ => none

/-- The line that a mark reports as not matching. -/
def Mark.misfit? (mark : Mark) : Option ContentLine :=
  mark.fault?.bind LexicalError.misfit?

@[simp] theorem Mark.misfit?_structural (kind : Token.Kind) (line : Nat) :
    (Mark.structural kind line).misfit? = none := rfl

@[simp] theorem Mark.misfit?_unmatched (width line : Nat) :
    (Mark.fault (.unmatchedIndentation width line)).misfit? = some ⟨line, width⟩ := rfl

namespace ContentLine

/-- Some line has the width and no line since is narrower. -/
def Kept (done : List ContentLine) (width : Nat) : Prop :=
  ∃ early entry late, done = early ++ entry :: late ∧ entry.width = width ∧
    ∀ other ∈ late, width ≤ other.width

/-- A line of the width would close blocks, but no line that it could continue is kept. -/
def Strays (done : List ContentLine) (width : Nat) : Prop :=
  0 < width ∧ (∃ previous ∈ done.getLast?, width < previous.width) ∧ ¬Kept done width

/-- Without lines no width is kept. -/
theorem kept_nil (width : Nat) : ¬Kept [] width := by
  rintro ⟨early, entry, late, whole, _⟩
  simp at whole

/-- A width is kept behind a line if the line has it, or if it was kept and the line is not narrower. -/
theorem kept_concat {done : List ContentLine} {entry : ContentLine} {width : Nat} :
    Kept (done ++ [entry]) width ↔ entry.width = width ∨ Kept done width ∧ width ≤ entry.width := by
  constructor
  · rintro ⟨early, found, late, whole, same, wide⟩
    rcases List.eq_nil_or_concat late with rfl | ⟨between, last, rfl⟩
    · obtain ⟨_, ⟨⟩⟩ := List.append_inj' whole rfl
      exact .inl same
    · rw [List.concat_eq_append, ← List.cons_append, ← List.append_assoc] at whole
      obtain ⟨rfl, ⟨⟩⟩ := List.append_inj' whole rfl
      refine .inr ⟨⟨early, found, between, rfl, same, fun other member => wide other ?_⟩,
        wide entry ?_⟩ <;> simp_all
  · rintro (same | ⟨⟨early, found, late, rfl, same, wide⟩, below⟩)
    · exact ⟨done, entry, [], rfl, same, by simp⟩
    · refine ⟨early, found, late ++ [entry], by simp, same, ?_⟩
      simpa [or_imp, forall_and] using And.intro wide below

end ContentLine

namespace Margin

/-- A line of the width opens a block, or it goes on in an open block. -/
def Fits (margin : Margin) (width : Nat) : Prop :=
  margin.width < width ∨ (margin.close width).width = width

instance (margin : Margin) (width : Nat) : Decidable (margin.Fits width) :=
  inferInstanceAs (Decidable (_ ∨ _))

/-- The open blocks behind some lines. -/
def through (margin : Margin) : List ContentLine → Margin
  | [] => margin
  | entry :: rest => through (margin.enter entry.width entry.line).1 rest

/-- What the starts of some lines give. -/
def shifts (margin : Margin) : List ContentLine → List Mark
  | [] => []
  | entry :: rest =>
      (margin.enter entry.width entry.line).2 ++ shifts (margin.enter entry.width entry.line).1 rest

/-- The lines that do not fit. -/
def misfits (margin : Margin) (entries : List ContentLine) : List ContentLine :=
  (margin.shifts entries).filterMap Mark.misfit?

/-- Lines lead through blocks one after another. -/
theorem through_append (margin : Margin) (early late : List ContentLine) :
    margin.through (early ++ late) = (margin.through early).through late := by
  induction early generalizing margin with
  | nil => rfl
  | cons entry early ih => exact ih _

/-- The starts of lines are read one after another. -/
theorem shifts_append (margin : Margin) (early late : List ContentLine) :
    margin.shifts (early ++ late) = margin.shifts early ++ (margin.through early).shifts late := by
  induction early generalizing margin with
  | nil => rfl
  | cons entry early ih => simp only [List.cons_append, shifts, through, ih, List.append_assoc]

/-- A line is reported if it does not fit. -/
theorem enter_misfit (margin : Margin) (width line : Nat) :
    (margin.enter width line).2.filterMap Mark.misfit? =
      if margin.Fits width then [] else [⟨line, width⟩] := by
  unfold enter Fits
  by_cases wider : margin.width < width
  · simp [wider]
  · by_cases same : (margin.close width).width = width
    · simp [wider, same, List.filterMap_replicate]
    · simp [wider, same, List.filterMap_replicate]

/-- A first line that does not fit is listed. -/
theorem misfits_cons (margin : Margin) (entry : ContentLine) (rest : List ContentLine) :
    margin.misfits (entry :: rest) =
      (if margin.Fits entry.width then [] else [entry]) ++
        (margin.enter entry.width entry.line).1.misfits rest := by
  unfold misfits
  rw [shifts, List.filterMap_append, enter_misfit]

/-- All lines fit if the first one does and the others do behind it. -/
theorem misfits_cons_eq_nil {margin : Margin} {entry : ContentLine} {rest : List ContentLine} :
    margin.misfits (entry :: rest) = [] ↔
      margin.Fits entry.width ∧ (margin.enter entry.width entry.line).1.misfits rest = [] := by
  rw [misfits_cons]
  by_cases fits : margin.Fits entry.width <;> simp [fits]

/-- The lines that do not fit are found one after another. -/
theorem misfits_append (margin : Margin) (early late : List ContentLine) :
    margin.misfits (early ++ late) = margin.misfits early ++ (margin.through early).misfits late := by
  unfold misfits
  rw [shifts_append, List.filterMap_append]

/-- Reading a text gives the faults of the lines that do not fit, among others. -/
theorem read_misfits {pieces : List Piece} (proper : ∀ piece ∈ pieces, piece.IsProper) (line : Nat)
    (column : Option Nat) (margin : Margin) :
    (margin.read line column pieces).filterMap Mark.misfit? =
      margin.misfits (Piece.starts line column pieces) := by
  revert margin
  apply Piece.reading_induction ?finish ?lineEnd ?silent ?solid proper line column
  case finish =>
    intro line column margin
    simp only [read, finish, List.filterMap_append, List.filterMap_cons, List.filterMap_replicate,
      Mark.misfit?_structural, List.filterMap_nil, List.append_nil]
    rfl
  case lineEnd =>
    intro line column rest _ later margin
    exact later margin
  case silent =>
    intro piece line column shifted rest _ _ reads starts later margin
    rw [reads, starts, later]
  case solid =>
    intro piece line column rest solid _ _ later margin
    have written : (piece.marks line).filterMap Mark.misfit? = [] := by cases piece <;> rfl
    rw [read_solid solid, Piece.starts_solid solid, List.filterMap_append, List.filterMap_append,
      written, List.append_nil, later]
    cases column with
    | none => rfl
    | some width => exact List.filterMap_append.symm

/-- No open block is wider than the innermost. -/
theorem Ordered.le_width {margin : Margin} (ordered : margin.Ordered) :
    ∀ width ∈ margin, width ≤ margin.width := by
  induction margin with
  | nil => simp
  | cons inner enclosing ih =>
      intro width member
      have outer : Margin.width enclosing < inner := ordered.1
      change width ≤ inner
      rcases List.mem_cons.mp member with rfl | further
      · exact Nat.le_refl _
      · have bound := ih ordered.2 width further
        omega

/-- Closing keeps the blocks that are not wider. -/
theorem mem_close {margin : Margin} (ordered : margin.Ordered) (column width : Nat) :
    width ∈ margin.close column ↔ width ∈ margin ∧ width ≤ column := by
  induction margin with
  | nil => simp [close]
  | cons inner enclosing ih =>
      have within := ordered.le_width
      unfold close
      split
      · rw [ih ordered.2, List.mem_cons]
        constructor
        · rintro ⟨member, below⟩
          exact ⟨.inr member, below⟩
        · rintro ⟨rfl | member, below⟩
          · omega
          · exact ⟨member, below⟩
      · have bound (member : width ∈ inner :: enclosing) : width ≤ inner := within width member
        constructor
        · intro member
          have bounded := bound member
          exact ⟨member, by omega⟩
        · exact And.left

/-- Closing comes to the width exactly if a block of that width is open. -/
theorem close_width {margin : Margin} (ordered : margin.Ordered) (width : Nat) :
    (margin.close width).width = width ↔ width = 0 ∨ width ∈ margin := by
  induction margin with
  | nil => simp [close, Margin.width, eq_comm]
  | cons inner enclosing ih =>
      have outer : Margin.width enclosing < inner := ordered.1
      unfold close
      split
      · rw [ih ordered.2, List.mem_cons]
        have differs : width ≠ inner := by omega
        simp [differs]
      · have inside := ordered.2.le_width
        change inner = width ↔ _
        constructor
        · rintro rfl
          exact .inr List.mem_cons_self
        · rintro (rfl | member)
          · omega
          · rcases List.mem_cons.mp member with rfl | further
            · rfl
            · have bound := inside width further
              omega

/-- A line fits if it is not narrower than the innermost block or has the width of an open one. -/
theorem fits_iff {margin : Margin} (ordered : margin.Ordered) (width : Nat) :
    margin.Fits width ↔ margin.width ≤ width ∨ width = 0 ∨ width ∈ margin := by
  unfold Fits
  rw [close_width ordered]
  constructor
  · rintro (wider | open_)
    · exact .inl (Nat.le_of_lt wider)
    · exact .inr open_
  · rintro (bound | open_)
    · rcases Nat.lt_or_eq_of_le bound with wider | rfl
      · exact .inl wider
      · cases margin with
        | nil => exact .inr (.inl rfl)
        | cons inner enclosing => exact .inr (.inr List.mem_cons_self)
    · exact .inr open_

/-- The open blocks are told by the lines before: the last line is in the innermost one, and a block of
some width is open if this width is kept. -/
structure Records (margin : Margin) (done : List ContentLine) : Prop where
  ordered : margin.Ordered
  width : margin.width = (done.getLast?.map (·.width)).getD 0
  mem : ∀ width, 0 < width → (width ∈ margin ↔ ContentLine.Kept done width)

theorem Records.nil : Records [] [] where
  ordered := trivial
  width := rfl
  mem width _ := by simpa using ContentLine.kept_nil width

/-- A line is narrower than the innermost block if it is narrower than the line before. -/
theorem Records.width_iff {margin : Margin} {done : List ContentLine} (records : Records margin done)
    (width : Nat) : width < margin.width ↔ ∃ previous ∈ done.getLast?, width < previous.width := by
  rw [records.width]
  constructor
  · intro narrow
    cases last : done.getLast? with
    | none =>
        rw [last] at narrow
        exact absurd narrow (Nat.not_lt_zero width)
    | some previous =>
        rw [last] at narrow
        exact ⟨previous, rfl, narrow⟩
  · rintro ⟨previous, last, narrow⟩
    rw [last]
    exact narrow

/-- A line fits the open blocks exactly if it does not stray from the lines before. -/
theorem Records.fits_iff {margin : Margin} {done : List ContentLine} (records : Records margin done)
    (width : Nat) : margin.Fits width ↔ ¬ContentLine.Strays done width := by
  rw [Margin.fits_iff records.ordered]
  unfold ContentLine.Strays
  rw [← records.width_iff]
  constructor
  · rintro (bound | outermost | member) ⟨positive, narrow, lost⟩
    · omega
    · omega
    · exact lost ((records.mem width positive).mp member)
  · intro aligned
    by_contra astray
    simp only [not_or, Nat.not_le] at astray
    have positive := Nat.pos_of_ne_zero astray.2.1
    exact aligned ⟨positive, astray.1, fun kept => astray.2.2 ((records.mem width positive).mpr kept)⟩

/-- A line that fits is in the innermost block behind it. -/
theorem Fits.enter_width {margin : Margin} {width : Nat} (fits : margin.Fits width) (line : Nat) :
    (margin.enter width line).1.width = width := by
  unfold enter
  split
  · rfl
  · next narrow => exact fits.resolve_left narrow

/-- A line that fits is recorded. -/
theorem Records.step {margin : Margin} {done : List ContentLine} (records : Records margin done)
    {entry : ContentLine} (fits : margin.Fits entry.width) :
    Records (margin.enter entry.width entry.line).1 (done ++ [entry]) where
  ordered := enter_ordered records.ordered _ _
  width := by
    rw [fits.enter_width]
    simp
  mem width positive := by
    rw [ContentLine.kept_concat, ← records.mem width positive]
    unfold enter
    split
    · next wider =>
        have below (member : width ∈ margin) : width ≤ entry.width :=
          Nat.le_trans (records.ordered.le_width width member) (Nat.le_of_lt wider)
        rw [List.mem_cons]
        constructor
        · rintro (rfl | member)
          · exact .inl rfl
          · exact .inr ⟨member, below member⟩
        · rintro (rfl | ⟨member, _⟩)
          · exact .inl rfl
          · exact .inr member
    · next narrow =>
        rw [mem_close records.ordered]
        constructor
        · exact .inr
        · rintro (rfl | kept)
          · have found := (close_width records.ordered _).mp (fits.resolve_left narrow)
            exact ⟨found.resolve_left (Nat.ne_of_gt positive), Nat.le_refl _⟩
          · exact kept

/-- Lines that all fit are recorded. -/
theorem Records.through {margin : Margin} {done entries : List ContentLine}
    (records : Records margin done) (fit : margin.misfits entries = []) :
    Records (margin.through entries) (done ++ entries) := by
  induction entries generalizing margin done with
  | nil => simpa [Margin.through] using records
  | cons entry rest ih =>
      obtain ⟨fits, others⟩ := misfits_cons_eq_nil.mp fit
      have recorded := ih (records.step fits) others
      rwa [List.append_assoc] at recorded

/-- Behind lines that fit, the innermost block has the width of the last one. -/
theorem through_width {margin : Margin} {entries : List ContentLine} {entry : ContentLine}
    (fit : margin.misfits (entries ++ [entry]) = []) :
    (margin.through (entries ++ [entry])).width = entry.width := by
  rw [misfits_append, List.append_eq_nil_iff, misfits_cons_eq_nil] at fit
  rw [through_append]
  exact fit.2.1.enter_width entry.line

/-- Lines that fit from the start on are recorded. -/
theorem records_of_fit {entries : List ContentLine} (fit : Margin.misfits [] entries = []) :
    Records (Margin.through [] entries) entries :=
  Records.nil.through fit

/-- The first line that does not fit. -/
theorem misfits_head {margin : Margin} {entries : List ContentLine} {entry : ContentLine}
    (first : (margin.misfits entries).head? = some entry) :
    ∃ early late, entries = early ++ entry :: late ∧ margin.misfits early = [] ∧
      ¬(margin.through early).Fits entry.width := by
  induction entries generalizing margin with
  | nil => cases first
  | cons next rest ih =>
      rw [misfits_cons] at first
      by_cases fits : margin.Fits next.width
      · rw [if_pos fits, List.nil_append] at first
        obtain ⟨early, late, rfl, fit, astray⟩ := ih first
        refine ⟨next :: early, late, rfl, ?_, astray⟩
        rw [misfits_cons, if_pos fits, fit]
        rfl
      · rw [if_neg fits] at first
        cases first
        exact ⟨[], rest, rfl, rfl, fits⟩

end Margin

namespace ContentLine

section Order

variable {early late : List ContentLine} {entry other : ContentLine}
  (ordered : (early ++ entry :: late).Pairwise (·.line < ·.line))
include ordered

/-- The lines before one of them are those above it. -/
theorem mem_early : other ∈ early ↔ other ∈ early ++ entry :: late ∧ other.line < entry.line := by
  obtain ⟨_, behind, across⟩ := List.pairwise_append.mp ordered
  constructor
  · intro member
    exact ⟨List.mem_append_left _ member, across other member entry List.mem_cons_self⟩
  · rintro ⟨member, before⟩
    rcases List.mem_append.mp member with found | rest
    · exact found
    · rcases List.mem_cons.mp rest with rfl | later
      · omega
      · have after := List.rel_of_pairwise_cons behind later
        omega

/-- The lines behind one of them are those below it. -/
theorem mem_late : other ∈ late ↔ other ∈ early ++ entry :: late ∧ entry.line < other.line := by
  obtain ⟨_, behind, across⟩ := List.pairwise_append.mp ordered
  constructor
  · intro member
    exact ⟨List.mem_append_right _ (List.mem_cons_of_mem _ member),
      List.rel_of_pairwise_cons behind member⟩
  · rintro ⟨member, after⟩
    rcases List.mem_append.mp member with found | rest
    · have before := across other found entry List.mem_cons_self
      omega
    · rcases List.mem_cons.mp rest with rfl | later
      · omega
      · exact later

end Order

/-- A line is told by its number. -/
theorem eq_of_line {entries : List ContentLine} (ordered : entries.Pairwise (·.line < ·.line))
    {first second : ContentLine} (one : first ∈ entries) (two : second ∈ entries)
    (same : first.line = second.line) : first = second := by
  obtain ⟨early, late, rfl⟩ := List.append_of_mem one
  obtain ⟨_, behind, across⟩ := List.pairwise_append.mp ordered
  rcases List.mem_append.mp two with before | rest
  · have apart := across second before first List.mem_cons_self
    omega
  · rcases List.mem_cons.mp rest with rfl | after
    · rfl
    · have apart := List.rel_of_pairwise_cons behind after
      omega

end ContentLine

namespace Text

/-- A line below another one has the same width, and no line between them is narrower. -/
def Continues (text : List Char) (earlier later : ContentLine) : Prop :=
  earlier.line < later.line ∧ earlier.width = later.width ∧
    ∀ between, HasContent text between → earlier.line < between.line → between.line < later.line →
      earlier.width ≤ between.width

/-- A line inside of blocks that is narrower than the line before and continues no line. -/
def Misaligned (text : List Char) (entry : ContentLine) : Prop :=
  HasContent text entry ∧ 0 < entry.width ∧
  (∃ previous, HasContent text previous ∧ previous.line < entry.line ∧ entry.width < previous.width ∧
    ∀ other, HasContent text other → other.line < entry.line → other.line ≤ previous.line) ∧
  ¬∃ earlier, HasContent text earlier ∧ Continues text earlier entry

section Position

variable {text : List Char} {early late : List ContentLine} {entry : ContentLine}
  (whole : contents text = early ++ entry :: late)
include whole

/-- The lines with content before one of them are those above it. -/
theorem mem_before {other : ContentLine} :
    other ∈ early ↔ HasContent text other ∧ other.line < entry.line := by
  have ordered := contents_ordered text
  rw [whole] at ordered
  rw [← mem_contents, whole]
  exact ContentLine.mem_early ordered

/-- The lines between two lines. -/
theorem mem_between {between behind : List ContentLine} {last other : ContentLine}
    (split : late = between ++ last :: behind) :
    other ∈ between ↔
      HasContent text other ∧ entry.line < other.line ∧ other.line < last.line := by
  have ordered := contents_ordered text
  rw [whole] at ordered
  have listed : other ∈ late ↔ HasContent text other ∧ entry.line < other.line := by
    rw [ContentLine.mem_late ordered, ← whole, mem_contents]
  have after := (List.pairwise_cons.mp (List.pairwise_append.mp ordered).2.1).2
  rw [split] at after listed
  rw [ContentLine.mem_early after, listed, and_assoc]

/-- The last line before one of them is the nearest with content above it. -/
theorem last_iff {previous : ContentLine} :
    previous ∈ early.getLast? ↔ HasContent text previous ∧ previous.line < entry.line ∧
      ∀ other, HasContent text other → other.line < entry.line → other.line ≤ previous.line := by
  have ordered := contents_ordered text
  rw [whole] at ordered
  have first := (List.pairwise_append.mp ordered).1
  constructor
  · intro last
    obtain ⟨before, rfl⟩ := List.getLast?_eq_some_iff.mp last
    obtain ⟨content, above⟩ := (mem_before whole).mp (List.mem_append_right before List.mem_cons_self)
    refine ⟨content, above, fun other found less => ?_⟩
    rcases List.mem_append.mp ((mem_before whole).mpr ⟨found, less⟩) with further | here
    · exact Nat.le_of_lt ((ContentLine.mem_early first).mp further).2
    · rw [List.mem_singleton.mp here]
  · rintro ⟨content, above, nearest⟩
    obtain ⟨before, behind, rfl⟩ := List.append_of_mem ((mem_before whole).mpr ⟨content, above⟩)
    cases behind with
    | nil => simp
    | cons next behind =>
        obtain ⟨member, after⟩ := (ContentLine.mem_late first).mp List.mem_cons_self
        obtain ⟨found, less⟩ := (mem_before whole).mp member
        have bound := nearest next found less
        omega

/-- The width of a line is kept if it continues a line above. -/
theorem kept_iff : ContentLine.Kept early entry.width ↔
    ∃ earlier, HasContent text earlier ∧ Continues text earlier entry := by
  have ordered := contents_ordered text
  rw [whole] at ordered
  have first := (List.pairwise_append.mp ordered).1
  constructor
  · rintro ⟨before, earlier, behind, rfl, same, wide⟩
    obtain ⟨content, above⟩ := (mem_before whole).mp (List.mem_append_right before List.mem_cons_self)
    refine ⟨earlier, content, above, same, fun other found after less => ?_⟩
    rw [same]
    apply wide
    exact (ContentLine.mem_late first).mpr ⟨(mem_before whole).mpr ⟨found, less⟩, after⟩
  · rintro ⟨earlier, content, above, same, wide⟩
    obtain ⟨before, behind, rfl⟩ := List.append_of_mem ((mem_before whole).mpr ⟨content, above⟩)
    refine ⟨before, earlier, behind, rfl, same, fun other member => ?_⟩
    obtain ⟨listed, after⟩ := (ContentLine.mem_late first).mp member
    obtain ⟨found, less⟩ := (mem_before whole).mp listed
    rw [← same]
    exact wide other found after less

/-- A line strays from those above exactly if it is misaligned. -/
theorem strays_iff : ContentLine.Strays early entry.width ↔ Misaligned text entry := by
  have content : HasContent text entry := by
    rw [← mem_contents, whole]
    simp
  have last : (∃ previous ∈ early.getLast?, entry.width < previous.width) ↔
      ∃ previous, HasContent text previous ∧ previous.line < entry.line ∧
        entry.width < previous.width ∧
        ∀ other, HasContent text other → other.line < entry.line → other.line ≤ previous.line := by
    simp only [last_iff whole]
    constructor
    · rintro ⟨previous, ⟨found, above, nearest⟩, wider⟩
      exact ⟨previous, found, above, wider, nearest⟩
    · rintro ⟨previous, found, above, wider, nearest⟩
      exact ⟨previous, ⟨found, above, nearest⟩, wider⟩
  unfold ContentLine.Strays Misaligned
  rw [last, kept_iff whole]
  simp only [content, true_and]

end Position

/-- Lines that fit up to some line are not misaligned. -/
theorem not_misaligned {text : List Char} {early late : List ContentLine} {entry : ContentLine}
    (whole : contents text = early ++ entry :: late)
    (fit : Margin.misfits [] (early ++ [entry]) = []) : ¬Misaligned text entry := by
  rw [Margin.misfits_append, List.append_eq_nil_iff, Margin.misfits_cons_eq_nil] at fit
  rw [← strays_iff whole]
  exact ((Margin.records_of_fit fit.1).fits_iff entry.width).mp fit.2.1

/-- The first line that does not fit is the first that is misaligned. -/
theorem misaligned_of_head {text : List Char} {entry : ContentLine}
    (first : (Margin.misfits [] (contents text)).head? = some entry) :
    Misaligned text entry ∧ ∀ other, Misaligned text other → entry.line ≤ other.line := by
  obtain ⟨early, late, whole, fit, astray⟩ := Margin.misfits_head first
  rw [(Margin.records_of_fit fit).fits_iff, not_not, strays_iff whole] at astray
  refine ⟨astray, fun other misaligned => ?_⟩
  by_contra above
  have listed : other ∈ early := (mem_before whole).mpr ⟨misaligned.1, Nat.lt_of_not_le above⟩
  obtain ⟨before, behind, rfl⟩ := List.append_of_mem listed
  have position : contents text = before ++ other :: (behind ++ entry :: late) := by
    rw [whole, List.append_assoc]
    rfl
  rw [List.append_cons, Margin.misfits_append, List.append_eq_nil_iff] at fit
  exact not_misaligned position fit.1 misaligned

/-- All lines fit exactly if none is misaligned. -/
theorem misfits_eq_nil_iff (text : List Char) :
    Margin.misfits [] (contents text) = [] ↔ ∀ entry, ¬Misaligned text entry := by
  constructor
  · intro fit entry misaligned
    obtain ⟨early, late, whole⟩ := List.append_of_mem (mem_contents.mpr misaligned.1)
    rw [whole, List.append_cons, Margin.misfits_append, List.append_eq_nil_iff] at fit
    exact not_misaligned whole fit.1 misaligned
  · intro aligned
    cases first : (Margin.misfits [] (contents text)).head? with
    | none => exact List.head?_eq_none_iff.mp first
    | some entry => exact absurd (misaligned_of_head first).1 (aligned entry)

/-- The first line that does not fit is the first that is misaligned. -/
theorem misfits_head_iff (text : List Char) (entry : ContentLine) :
    (Margin.misfits [] (contents text)).head? = some entry ↔
      Misaligned text entry ∧ ∀ other, Misaligned text other → entry.line ≤ other.line := by
  refine ⟨misaligned_of_head, ?_⟩
  rintro ⟨misaligned, least⟩
  cases first : (Margin.misfits [] (contents text)).head? with
  | none =>
      have fit := List.head?_eq_none_iff.mp first
      exact absurd misaligned ((misfits_eq_nil_iff text).mp fit entry)
  | some found =>
      obtain ⟨strays, before⟩ := misaligned_of_head first
      have same : found.line = entry.line :=
        Nat.le_antisymm (before entry misaligned) (least found strays)
      rw [ContentLine.eq_of_line (contents_ordered text) (mem_contents.mpr strays.1)
        (mem_contents.mpr misaligned.1) same]

end Text

/-- The first line opens and closes nothing. -/
theorem Margin.shifts_contents (text : List Char) :
    Margin.shifts [] (Text.contents text) = Margin.shifts [] (Text.laterContents .code 1 text) := by
  unfold Text.contents
  cases Text.indentation text <;> rfl

/-- The faults of a text about lines that match no open block are those of the lines that do not fit. -/
theorem Token.scan_misfits (source : String) :
    (scan source).2.filterMap LexicalError.misfit? =
      Margin.misfits [] (Text.contents (Text.unifyLineEnds source.toList)) := by
  change ((Mark.ofSource (Text.unifyLineEnds source.toList)).filterMap Mark.fault?).filterMap
    LexicalError.misfit? = _
  rw [List.filterMap_filterMap]
  change (Mark.ofSource (Text.unifyLineEnds source.toList)).filterMap Mark.misfit? = _
  unfold Mark.ofSource Piece.ofSource
  rw [Margin.read_misfits (Piece.cut_proper _), Piece.starts_eq]
  unfold Margin.misfits
  rw [Margin.shifts_contents]
  rfl

/-- A text is reported for its indentation exactly if some line does not fit. -/
theorem Token.scan_reports_iff (source : String) :
    (∃ width line, .unmatchedIndentation width line ∈ (scan source).2) ↔
      Margin.misfits [] (Text.contents (Text.unifyLineEnds source.toList)) ≠ [] := by
  rw [← scan_misfits, ne_eq, List.filterMap_eq_nil_iff]
  constructor
  · rintro ⟨width, line, member⟩ silent
    cases silent _ member
  · intro loud
    simp only [not_forall] at loud
    obtain ⟨error, member, found⟩ := loud
    cases error with
    | unmatchedIndentation width line => exact ⟨width, line, member⟩
    | _ => exact absurd rfl found

end OffsideScript
