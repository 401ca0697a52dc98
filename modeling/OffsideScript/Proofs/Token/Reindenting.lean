import OffsideScript.Proofs.Token.IdleLines

namespace OffsideScript

namespace Text

/-- Two texts that differ in the blanks before their lines. A line end in a quoted text ends no line. -/
inductive Reindented : List Char → List Char → Prop
  | last {blanks others : List Char} (blank : IsBlank blanks) (other : IsBlank others)
      (line : List Char) : Reindented (blanks ++ line) (others ++ line)
  | line {blanks others line more moved : List Char} (blank : IsBlank blanks) (other : IsBlank others)
      (ends : zone line ≠ .quote ∨ '\'' ∉ more) (rest : Reindented more moved) :
      Reindented (blanks ++ (line ++ '\n' :: more)) (others ++ (line ++ '\n' :: moved))

/-- A line behind the first one has content behind blanks of these widths in two texts. -/
def Indents (text moved : List Char) (line width other : Nat) : Prop :=
  1 < line ∧ HasContent text ⟨line, width⟩ ∧ HasContent moved ⟨line, other⟩

/-- The widths of the lines with content are in the same order in both texts, and zero in both or in
none. -/
structure SameOrder (text moved : List Char) : Prop where
  zero : ∀ {line width other : Nat}, Indents text moved line width other → (width = 0 ↔ other = 0)
  less : ∀ {first one two second three four : Nat}, Indents text moved first one two →
    Indents text moved second three four → (one < three ↔ two < four)

/-- Blanks have nothing but blanks among them. -/
theorem count_blank {blanks : List Char} (blank : IsBlank blanks) {character : Char}
    (solid : character ∉ [' ', '\t']) : blanks.count character = 0 := by
  apply List.count_eq_zero.mpr
  intro member
  apply solid
  simpa using blank character member

/-- All that is no blank is in both texts equally often. -/
theorem Reindented.count {text moved : List Char} (again : Reindented text moved) {character : Char}
    (solid : character ∉ [' ', '\t']) : text.count character = moved.count character := by
  induction again with
  | last blank other line =>
      rw [List.count_append, List.count_append, count_blank blank solid, count_blank other solid]
  | line blank other _ _ ih =>
      simp only [List.count_append, List.count_cons, count_blank blank solid,
        count_blank other solid, ih]

end Text

/-- The same fault, but for a width of a line that makes room for the one that belongs to it. -/
def LexicalError.Alike (paired : Nat → Nat → Nat → Prop) (error other : LexicalError) : Prop :=
  other = error ∨ ∃ line width changed, paired line width changed ∧
    error = .unmatchedIndentation width line ∧ other = .unmatchedIndentation changed line

namespace Piece

/-- The pieces that are blanks. -/
def IsBlank : Piece → Prop
  | space | tab => True
  | _ => False

/-- The same piece, or quotes over as many lines that are both not closed. -/
def Alike (piece other : Piece) : Prop :=
  other = piece ∨ ∃ content changed, piece = unclosed content ∧ other = unclosed changed ∧
    content.count '\n' = changed.count '\n'

/-- Alike pieces with content give the same marks and have as many lines. -/
theorem Alike.solid {piece other : Piece} (alike : piece.Alike other) (solid : piece.IsSolid) :
    other.IsSolid ∧ (∀ line, other.marks line = piece.marks line) ∧ other.lineEnds = piece.lineEnds := by
  rcases alike with rfl | ⟨content, changed, rfl, rfl, count⟩
  · exact ⟨solid, fun _ => rfl, rfl⟩
  · refine ⟨trivial, fun _ => rfl, ?_⟩
    simp [lineEnds, text, count]

/-- Alike pieces without content are the same. -/
theorem Alike.eq {piece other : Piece} (alike : piece.Alike other) (hollow : ¬piece.IsSolid) :
    other = piece := by
  rcases alike with same | ⟨content, changed, rfl, _⟩
  · exact same
  · exact absurd trivial hollow

/-- The same pieces, but for blanks. -/
inductive Realigned : List Piece → List Piece → Prop
  | nil : Realigned [] []
  | left {piece : Piece} {pieces others : List Piece} (blank : piece.IsBlank)
      (rest : Realigned pieces others) : Realigned (piece :: pieces) others
  | right {piece : Piece} {pieces others : List Piece} (blank : piece.IsBlank)
      (rest : Realigned pieces others) : Realigned pieces (piece :: others)
  | cons {piece other : Piece} {pieces others : List Piece} (alike : piece.Alike other)
      (rest : Realigned pieces others) : Realigned (piece :: pieces) (other :: others)

/-- The same pieces may stand in front. -/
theorem Realigned.append {pieces others : List Piece} (rest : Realigned pieces others)
    (same : List Piece) : Realigned (same ++ pieces) (same ++ others) := by
  induction same with
  | nil => exact rest
  | cons piece same ih => exact .cons (.inl rfl) ih

/-- Pieces that are the same but for blanks are so both ways. -/
theorem Realigned.symm {pieces others : List Piece} (realigned : Realigned pieces others) :
    Realigned others pieces := by
  induction realigned with
  | nil => exact .nil
  | left blank _ ih => exact .right blank ih
  | right blank _ ih => exact .left blank ih
  | cons alike _ ih =>
      apply Realigned.cons _ ih
      rcases alike with rfl | ⟨content, changed, rfl, rfl, count⟩
      · exact .inl rfl
      · exact .inr ⟨changed, content, rfl, rfl, count.symm⟩

/-- Blanks in front do not count. -/
theorem Realigned.blanks {text blanks : List Char} {others : List Piece}
    (realigned : Realigned (cut 0 text) others) (blank : Text.IsBlank blanks) :
    Realigned (cut 0 (blanks ++ text)) others := by
  induction blanks with
  | nil => exact realigned
  | cons character blanks ih =>
      obtain ⟨here, more⟩ := List.forall_mem_cons.mp blank
      rcases here with rfl | rfl
      · exact .left trivial (ih more)
      · exact .left trivial (ih more)

/-- A quotation mark without another one starts a quote that is not closed. -/
theorem cut_quote {content : List Char} (absent : '\'' ∉ content) :
    cut 0 ('\'' :: content) = [unclosed content] := by
  have starts : startingAt '\'' (content ++ []) = unclosed content := by
    rw [List.append_nil]
    exact startingAt_unclosed absent
  have alone := cut_of_startingAt starts rfl
  rwa [List.append_nil] at alone

/-- A quote that is open at the end of a line and is not closed goes on to the end of the text. -/
theorem cut_unclosed {line : List Char} (inside : Text.zone line = .quote) :
    ∃ (pieces : List Piece) (content : List Char), ∀ more, '\'' ∉ more →
      cut 0 (line ++ '\n' :: more) = pieces ++ [unclosed (content ++ '\n' :: more)] := by
  induction line using cut_induction with
  | empty => cases inside
  | step character covered after text whole ih =>
      by_cases closed : character = '\'' → '\'' ∈ covered ++ after
      · have starts := startingAt_line closed []
        rw [List.append_assoc] at starts
        have behind : Text.zone after = .quote := by
          apply (Text.zone_line after).mp
          rw [← zone_piece (starts ▸ text) (by simp)]
          have still := (Text.zone_line _).mpr inside
          rwa [List.cons_append, List.append_assoc] at still
        obtain ⟨pieces, content, later⟩ := ih behind
        refine ⟨startingAt character (covered ++ after) :: pieces, content, fun more unquoted => ?_⟩
        rw [cut_append_line text closed, later more unquoted]
        rfl
      · obtain ⟨rfl, unquoted⟩ := Classical.not_imp.mp closed
        refine ⟨[], covered ++ after, fun more still => ?_⟩
        have absent : '\'' ∉ covered ++ after ++ '\n' :: more := by
          rw [List.mem_append, List.mem_cons, not_or, not_or]
          exact ⟨unquoted, by decide, still⟩
        exact cut_quote absent

end Piece

/-- A text with other blanks before its lines has the same pieces but for blanks. -/
theorem Text.Reindented.realigned {text moved : List Char} (again : Text.Reindented text moved) :
    Piece.Realigned (Piece.cut 0 text) (Piece.cut 0 moved) := by
  have both {text moved blanks others : List Char}
      (rest : Piece.Realigned (Piece.cut 0 text) (Piece.cut 0 moved)) (blank : IsBlank blanks)
      (other : IsBlank others) :
      Piece.Realigned (Piece.cut 0 (blanks ++ text)) (Piece.cut 0 (others ++ moved)) :=
    ((rest.blanks blank).symm.blanks other).symm
  induction again with
  | last blank other line =>
      apply both _ blank other
      have same := Piece.Realigned.nil.append (Piece.cut 0 line)
      rwa [List.append_nil] at same
  | @line _ _ line more moved blank other ends again ih =>
      apply both _ blank other
      by_cases outside : zone line ≠ .quote
      · rw [Piece.cut_outside outside, Piece.cut_outside outside]
        exact (Piece.Realigned.cons (.inl rfl) ih).append _
      · have unquoted := ends.resolve_left outside
        have still : '\'' ∉ moved := by
          rw [← List.count_eq_zero, ← again.count (by decide)]
          exact List.count_eq_zero.mpr unquoted
        obtain ⟨pieces, content, cuts⟩ := Piece.cut_unclosed (not_not.mp outside)
        rw [cuts more unquoted, cuts moved still]
        apply Piece.Realigned.append
        apply Piece.Realigned.cons _ .nil
        refine .inr ⟨_, _, rfl, rfl, ?_⟩
        rw [List.count_append, List.count_append, List.count_cons, List.count_cons,
          again.count (by decide)]

/-- Widths that belong together: those of a line in both texts, or of the outermost level. -/
def Margin.Level (paired : Nat → Nat → Nat → Prop) (width other : Nat) : Prop :=
  width = 0 ∧ other = 0 ∨ ∃ line, paired line width other

/-- The same mark, or faults that are alike. -/
def Mark.Alike (paired : Nat → Nat → Nat → Prop) (mark other : Mark) : Prop :=
  other = mark ∨ ∃ error changed : LexicalError, error.Alike paired changed ∧
    mark = .fault error ∧ other = .fault changed

/-- Marks are alike to themselves. -/
theorem Mark.alike_refl (paired : Nat → Nat → Nat → Prop) (marks : List Mark) :
    List.Forall₂ (Alike paired) marks marks :=
  List.forall₂_same.mpr fun _ _ => .inl rfl

section Reports

variable {paired : Nat → Nat → Nat → Prop} {marks others : List Mark}
  (alike : List.Forall₂ (Mark.Alike paired) marks others)
include alike

/-- Alike marks have the same tokens. -/
theorem Mark.alike_tokens : others.filterMap token? = marks.filterMap token? := by
  induction alike with
  | nil => rfl
  | cons here _ ih =>
      rcases here with rfl | ⟨error, changed, _, rfl, rfl⟩
      · rw [List.filterMap_cons, List.filterMap_cons, ih]
      · exact ih

/-- Alike marks have faults that are alike. -/
theorem Mark.alike_faults :
    List.Forall₂ (LexicalError.Alike paired) (marks.filterMap fault?) (others.filterMap fault?) := by
  induction alike with
  | nil => exact .nil
  | @cons _ mark _ _ here _ ih =>
      rcases here with rfl | ⟨error, changed, belong, rfl, rfl⟩
      · cases mark with
        | token read => exact ih
        | fault error => exact .cons (.inl rfl) ih
      · exact .cons belong ih

end Reports

namespace Margin

variable {paired : Nat → Nat → Nat → Prop}

/-- The innermost widths belong together. -/
theorem level_width {margin others : Margin} (levels : List.Forall₂ (Level paired) margin others) :
    Level paired margin.width others.width := by
  cases levels with
  | nil => exact .inl ⟨rfl, rfl⟩
  | cons here _ => exact here

section Ordered

variable (ordered : ∀ {first one second two : Nat}, Level paired first one → Level paired second two →
    (first < second ↔ one < two))
include ordered

/-- Widths that belong together are the same in both texts or in none. -/
theorem level_eq {first one second two : Nat} (here : Level paired first one)
    (there : Level paired second two) : first = second ↔ one = two := by
  have less := ordered here there
  have more := ordered there here
  omega

/-- Blocks are closed alike at widths that belong together. -/
theorem level_close {margin others : Margin} (levels : List.Forall₂ (Level paired) margin others)
    {column other : Nat} (here : Level paired column other) :
    List.Forall₂ (Level paired) (margin.close column) (others.close other) := by
  induction levels with
  | nil => exact .nil
  | @cons width changed _ _ level enclosing ih =>
      rw [close, close]
      by_cases inside : column < width
      · rw [if_pos inside, if_pos ((ordered here level).mp inside)]
        exact ih
      · rw [if_neg inside, if_neg (mt (ordered here level).mpr inside)]
        exact .cons level enclosing

/-- A line changes both margins in the same way. -/
theorem level_enter {margin others : Margin} (levels : List.Forall₂ (Level paired) margin others)
    {column other line : Nat} (here : paired line column other) :
    List.Forall₂ (Level paired) (margin.enter column line).1 (others.enter other line).1 ∧
      List.Forall₂ (Mark.Alike paired) (margin.enter column line).2 (others.enter other line).2 := by
  have level : Level paired column other := .inr ⟨line, here⟩
  have deeper := ordered (level_width levels) level
  have closed := level_close ordered levels level
  have fits := level_eq ordered (level_width closed) level
  unfold enter
  by_cases opens : margin.width < column
  · rw [if_pos opens, if_pos (deeper.mp opens)]
    exact ⟨.cons level levels, Mark.alike_refl paired _⟩
  · rw [if_neg opens, if_neg (mt deeper.mpr opens)]
    refine ⟨closed, ?_⟩
    dsimp only
    rw [levels.length_eq, closed.length_eq]
    apply List.rel_append (Mark.alike_refl paired _)
    by_cases fit : (margin.close column).width = column
    · rw [if_pos fit, if_pos (fits.mp fit)]
      exact .nil
    · rw [if_neg fit, if_neg (mt fits.mpr fit)]
      have faults : LexicalError.Alike paired (.unmatchedIndentation column line)
          (.unmatchedIndentation other line) := .inr ⟨line, column, other, here, rfl, rfl⟩
      exact .cons (.inr ⟨_, _, faults, rfl, rfl⟩) .nil

/-- Reading goes the same way if the widths at which lines start belong together. -/
theorem read_realigned {pieces others : List Piece} (realigned : Piece.Realigned pieces others)
    {margin second : Margin} (levels : List.Forall₂ (Level paired) margin second) {line : Nat}
    {column other : Option Nat} (known : column.isSome = other.isSome)
    (pairs : ∀ number width changed, ⟨number, width⟩ ∈ Piece.starts line column pieces →
      ⟨number, changed⟩ ∈ Piece.starts line other others → paired number width changed) :
    List.Forall₂ (Mark.Alike paired) (margin.read line column pieces)
      (second.read line other others) := by
  induction realigned generalizing margin second line column other with
  | nil =>
      show List.Forall₂ _ (margin.finish line) (second.finish line)
      unfold finish
      rw [levels.length_eq]
      exact Mark.alike_refl paired _
  | @left piece _ _ blank _ ih =>
      cases piece with
      | space => exact ih levels (by rwa [Option.isSome_map]) pairs
      | tab => exact ih levels (by rwa [Option.isSome_map]) pairs
      | _ => exact blank.elim
  | @right piece _ _ blank _ ih =>
      cases piece with
      | space => exact ih levels (by rwa [Option.isSome_map]) pairs
      | tab => exact ih levels (by rwa [Option.isSome_map]) pairs
      | _ => exact blank.elim
  | @cons piece next rest behind alike _ ih =>
      by_cases solid : piece.IsSolid
      · obtain ⟨moved, marks, ends⟩ := alike.solid solid
        rw [Piece.starts_solid solid, Piece.starts_solid moved, ends] at pairs
        rw [read_solid solid, read_solid moved, marks, ends]
        cases column with
        | none =>
            cases other with
            | none => exact List.rel_append (Mark.alike_refl paired _) (ih levels rfl pairs)
            | some other => cases known
        | some column =>
            cases other with
            | none => cases known
            | some other =>
                have here : paired line column other :=
                  pairs line column other (List.mem_append_left _ (List.mem_singleton_self _))
                    (List.mem_append_left _ (List.mem_singleton_self _))
                obtain ⟨entered, shifts⟩ := level_enter ordered levels here
                apply List.rel_append (List.rel_append shifts (Mark.alike_refl paired _))
                apply ih entered rfl
                intro number width changed one two
                exact pairs number width changed (List.mem_append_right _ one)
                  (List.mem_append_right _ two)
      · obtain rfl := alike.eq solid
        cases next with
        | lineEnd => exact .cons (.inl rfl) (ih levels rfl pairs)
        | space => exact ih levels (by rwa [Option.isSome_map, Option.isSome_map]) pairs
        | tab => exact ih levels (by rwa [Option.isSome_map, Option.isSome_map]) pairs
        | comment => exact ih levels rfl pairs
        | _ => exact absurd trivial solid

end Ordered

end Margin

namespace Text

/-- The widths of one line in both texts belong together. -/
theorem indents_of_starts {text moved : List Char} {line width changed : Nat}
    (one : ⟨line, width⟩ ∈ Piece.starts 1 none (Piece.cut 0 text))
    (two : ⟨line, changed⟩ ∈ Piece.starts 1 none (Piece.cut 0 moved)) :
    Indents text moved line width changed := by
  rw [Piece.starts_eq] at one two
  have later := (laterContents_ordered .code 1 text).1 _ one
  exact ⟨later, mem_contents.mp (List.mem_append_right _ one),
    mem_contents.mp (List.mem_append_right _ two)⟩

/-- Widths that belong together are in the same order. -/
theorem SameOrder.levels {text moved : List Char} (order : SameOrder text moved)
    {first one second two : Nat} (here : Margin.Level (Indents text moved) first one)
    (there : Margin.Level (Indents text moved) second two) : first < second ↔ one < two := by
  rcases here with ⟨rfl, rfl⟩ | ⟨line, here⟩
  · rcases there with ⟨rfl, rfl⟩ | ⟨other, there⟩
    · rfl
    · have zero := order.zero there
      omega
  · rcases there with ⟨rfl, rfl⟩ | ⟨other, there⟩
    · simp
    · exact order.less here there

/-- A text with other blanks in the same order has marks that are alike. -/
theorem Reindented.marks {text moved : List Char} (again : Reindented text moved)
    (order : SameOrder text moved) :
    List.Forall₂ (Mark.Alike (Indents text moved)) (Mark.ofSource text) (Mark.ofSource moved) :=
  Margin.read_realigned order.levels again.realigned .nil rfl
    fun _ _ _ one two => indents_of_starts one two

end Text

/-- Blanks of the same width before a line can be exchanged. -/
theorem Mark.ofSource_blanks {before blanks others : List Char} (ends : Text.EndsLine before)
    (outside : Text.zone before ≠ .quote) (blank : Text.IsBlank blanks) (other : Text.IsBlank others)
    (same : Text.blankWidth blanks = Text.blankWidth others) (after : List Char) :
    ofSource (before ++ (others ++ after)) = ofSource (before ++ (blanks ++ after)) := by
  rcases List.eq_nil_or_concat' before with rfl | ⟨lines, last, rfl⟩
  · show Margin.read [] 1 none (Piece.cut 0 (others ++ after)) =
      Margin.read [] 1 none (Piece.cut 0 (blanks ++ after))
    rw [Margin.read_blanks blank, Margin.read_blanks other]
    rfl
  · obtain rfl : last = '\n' := ends last (by simp)
    obtain ⟨marks, margin, _, _, reads⟩ := ofSource_outside (mt (Text.zone_line lines).mpr outside)
    rw [List.append_assoc, List.append_assoc, List.singleton_append, List.singleton_append, reads, reads,
      Margin.read_blanks blank, Margin.read_blanks other, same]

/-- Only the order of the widths of lines counts. With other blanks before its lines, in the same order for
the lines with content behind the first one, a text has the same tokens, and the same faults but for the
widths in them. Nothing at all changes if blanks make room for others of their width, as a tab for four
spaces. The lines are those of the text with its line ends brought to one form. -/
theorem Token.scan_reindented (source other : String) :
    (Text.Reindented (Text.unifyLineEnds source.toList) (Text.unifyLineEnds other.toList) →
      Text.SameOrder (Text.unifyLineEnds source.toList) (Text.unifyLineEnds other.toList) →
        (scan other).1 = (scan source).1 ∧
          List.Forall₂ (LexicalError.Alike (Text.Indents (Text.unifyLineEnds source.toList)
            (Text.unifyLineEnds other.toList))) (scan source).2 (scan other).2) ∧
      ∀ before blanks others after, Text.EndsLine before → Text.zone before ≠ .quote →
        Text.IsBlank blanks → Text.IsBlank others → Text.blankWidth blanks = Text.blankWidth others →
        Text.unifyLineEnds source.toList = before ++ (blanks ++ after) →
        Text.unifyLineEnds other.toList = before ++ (others ++ after) →
          scan other = scan source := by
  constructor
  · intro again order
    have marks := again.marks order
    exact ⟨congrArg layout (Mark.alike_tokens marks), Mark.alike_faults marks⟩
  · intro before blanks others after ends outside blank replaced same one two
    have marks := Mark.ofSource_blanks ends outside blank replaced same after
    unfold scan read
    rw [one, two, marks]

/-- The first line may start anywhere. The third one fits no block, at either width. -/
theorem Token.scan_reindented_misfit :
    Text.Reindented "if a\n    b\n  c".toList "\tif a\n\t\tb\n c".toList ∧
      Text.SameOrder "if a\n    b\n  c".toList "\tif a\n\t\tb\n c".toList ∧
      (scan "\tif a\n\t\tb\n c").1 = (scan "if a\n    b\n  c").1 ∧
      (scan "if a\n    b\n  c").2 = [.unmatchedIndentation 2 3] ∧
      (scan "\tif a\n\t\tb\n c").2 = [.unmatchedIndentation 1 3] ∧
      scan "if a\n    b" = scan "if a\n\tb" := by
  have again : Text.Reindented "if a\n    b\n  c".toList "\tif a\n\t\tb\n c".toList := by
    have third : Text.Reindented "  c".toList " c".toList :=
      @Text.Reindented.last [' ', ' '] [' '] (by simp [Text.IsBlank]) (by simp [Text.IsBlank]) ['c']
    have second : Text.Reindented "    b\n  c".toList "\t\tb\n c".toList :=
      @Text.Reindented.line [' ', ' ', ' ', ' '] ['\t', '\t'] ['b'] _ _ (by simp [Text.IsBlank])
        (by simp [Text.IsBlank]) (.inl (by decide)) third
    exact @Text.Reindented.line [] ['\t'] "if a".toList _ _ (by simp [Text.IsBlank])
      (by simp [Text.IsBlank]) (.inl (by decide)) second
  have few : Text.contents "if a\n    b\n  c".toList = [⟨1, 0⟩, ⟨2, 4⟩, ⟨3, 2⟩] := by decide
  have many : Text.contents "\tif a\n\t\tb\n c".toList = [⟨1, 0⟩, ⟨2, 8⟩, ⟨3, 1⟩] := by decide
  have widths {line width other : Nat} (indents : Text.Indents "if a\n    b\n  c".toList
      "\tif a\n\t\tb\n c".toList line width other) :
      width = 4 ∧ other = 8 ∨ width = 2 ∧ other = 1 := by
    obtain ⟨later, here, there⟩ := indents
    rw [← Text.mem_contents, few] at here
    rw [← Text.mem_contents, many] at there
    simp only [List.mem_cons, ContentLine.mk.injEq, List.not_mem_nil, or_false] at here there
    omega
  have order : Text.SameOrder "if a\n    b\n  c".toList "\tif a\n\t\tb\n c".toList := by
    refine ⟨fun here => ?_, fun here there => ?_⟩
    · have width := widths here
      omega
    · have one := widths here
      have two := widths there
      omega
  have tokens := ((scan_reindented "if a\n    b\n  c" "\tif a\n\t\tb\n c").1 again order).1
  have same := (scan_reindented "if a\n\tb" "if a\n    b").2 "if a\n".toList ['\t']
    [' ', ' ', ' ', ' '] ['b'] (by decide) (by decide) (by simp [Text.IsBlank])
    (by simp [Text.IsBlank]) (by decide) (by decide) (by decide)
  exact ⟨again, order, tokens, by decide +kernel, by decide +kernel, same⟩

end OffsideScript
