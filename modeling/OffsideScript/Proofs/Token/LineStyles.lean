import OffsideScript.Proofs.Token.IdleLines

namespace OffsideScript

namespace Text

/-- One pass over a text that puts a line feed for each line end. A carriage return ends a line together with
the line feed behind it, if there is one. -/
def passLineEnds : List Char → List Char
  | [] => []
  | '\r' :: '\n' :: rest => '\n' :: passLineEnds rest
  | '\r' :: rest => '\n' :: passLineEnds rest
  | character :: rest => character :: passLineEnds rest

/-- A carriage return that joining moves in front of a line feed stays a line end of its own. -/
theorem unifyLineEnds_eq_passLineEnds (text : List Char) : unifyLineEnds text = passLineEnds text := by
  unfold unifyLineEnds
  fun_induction passLineEnds text with
  | case1 => rfl
  | case2 rest ih =>
      rw [joinLineEnds, List.map_cons, ih]
      rfl
  | case3 rest alone ih =>
      rw [joinLineEnds.eq_3 _ _ fun others _ => alone others, List.map_cons, ih]
      rfl
  | case4 character rest alone other ih =>
      rw [joinLineEnds.eq_3 _ _ alone, List.map_cons, ih, if_neg other]

/-- A text has as many line ends as one pass finds. -/
theorem lineEnds_eq_count (text : List Char) : lineEnds text = (passLineEnds text).count '\n' := by
  rw [lineEnds, unifyLineEnds_eq_passLineEnds]

/-- The ways in which a line can end. -/
inductive LineEnd where
  | feed
  | carriage
  | pair
  deriving DecidableEq, Repr

/-- The characters of a line end. -/
def LineEnd.text : LineEnd → List Char
  | feed => ['\n']
  | carriage => ['\r']
  | pair => ['\r', '\n']

/-- A text in which no line ends. -/
def IsUnbroken (text : List Char) : Prop :=
  '\n' ∉ text ∧ '\r' ∉ text

/-- A line with its end. -/
structure Line where
  content : List Char
  ending : LineEnd
  unbroken : IsUnbroken content

/-- The lines of a text. What stands behind the last line end is a line without an end, or nothing. -/
structure Lines where
  ended : List Line
  last : List Char
  unbroken : IsUnbroken last

namespace Line

/-- The characters of a line. -/
def text (line : Line) : List Char :=
  line.content ++ line.ending.text

/-- The line with a line feed as its end. -/
def fed (line : Line) : Line :=
  { line with ending := .feed }

/-- The ends of two lines in a row are two line ends. -/
def Apart (line next : Line) : Prop :=
  ¬(line.ending = .carriage ∧ next.content = [] ∧ next.ending = .feed)

end Line

namespace Lines

/-- The characters of all lines. -/
def text (lines : Lines) : List Char :=
  lines.ended.flatMap Line.text ++ lines.last

/-- All lines with line feeds as their ends. A last line without an end stays without one. -/
def fed (lines : Lines) : Lines :=
  { lines with ended := lines.ended.map Line.fed }

/-- No line that a carriage return ends is followed by an empty line that a line feed ends. -/
def Apart (lines : Lines) : Prop :=
  lines.ended.IsChain Line.Apart

end Lines

/-- Nothing changes within a line. -/
theorem passLineEnds_unbroken {content : List Char} (unbroken : IsUnbroken content) (rest : List Char) :
    passLineEnds (content ++ rest) = content ++ passLineEnds rest := by
  induction content with
  | nil => rfl
  | cons character content ih =>
      obtain ⟨feeds, carriages⟩ := unbroken
      obtain ⟨_, fewer⟩ := not_or.mp (mt List.mem_cons.mpr feeds)
      obtain ⟨other, less⟩ := not_or.mp (mt List.mem_cons.mpr carriages)
      have plain : character ≠ '\r' := fun same => other same.symm
      rw [List.cons_append, passLineEnds.eq_4 _ _ (fun _ same => absurd same plain) plain,
        ih ⟨fewer, less⟩, List.cons_append]

/-- Nothing changes in a last line without an end. -/
theorem passLineEnds_last {last : List Char} (unbroken : IsUnbroken last) : passLineEnds last = last := by
  simpa [passLineEnds] using passLineEnds_unbroken unbroken []

/-- A carriage return adds nothing to a line feed behind it. -/
theorem passLineEnds_carriage (rest : List Char) :
    passLineEnds ('\r' :: rest) =
      if rest.head? = some '\n' then passLineEnds rest else '\n' :: passLineEnds rest := by
  by_cases follows : rest.head? = some '\n'
  · rw [if_pos follows]
    obtain ⟨rest, rfl⟩ := List.head?_eq_some_iff.mp follows
    rfl
  · rw [if_neg follows]
    apply passLineEnds.eq_3
    rintro others rfl
    exact follows rfl

/-- The end of a line becomes a line feed, unless it joins the line feed behind it. -/
theorem passLineEnds_line (line : Line) (rest : List Char) :
    passLineEnds (line.text ++ rest) = line.content ++
      if line.ending = .carriage ∧ rest.head? = some '\n' then passLineEnds rest
      else '\n' :: passLineEnds rest := by
  rw [Line.text, List.append_assoc, passLineEnds_unbroken line.unbroken]
  congr 1
  cases line.ending with
  | feed => rfl
  | pair => rfl
  | carriage => simpa [LineEnd.text] using passLineEnds_carriage rest

section Ended

variable {last : List Char} (unbroken : IsUnbroken last)
include unbroken

/-- Lines start with a line feed exactly if this ends an empty line. -/
theorem head_ended (ended : List Line) :
    (ended.flatMap Line.text ++ last).head? = some '\n' ↔
      ∃ next ∈ ended.head?, next.content = [] ∧ next.ending = .feed := by
  cases ended with
  | nil =>
      constructor
      · intro first
        exact absurd (List.mem_of_mem_head? first) unbroken.1
      · rintro ⟨next, member, _⟩
        cases member
  | cons next ended =>
      obtain ⟨content, ending, clean⟩ := next
      cases content with
      | nil => cases ending <;> simp [Line.text, LineEnd.text]
      | cons character content =>
          have other : character ≠ '\n' := fun same => clean.1 (same ▸ List.mem_cons_self)
          simp [Line.text, other]

variable {line : Line} {ended : List Line}

/-- A line that is apart from the next one gives a line feed of its own. -/
theorem passLineEnds_apart (apart : ∀ next ∈ ended.head?, line.Apart next) :
    passLineEnds ((line :: ended).flatMap Line.text ++ last) =
      line.content ++ '\n' :: passLineEnds (ended.flatMap Line.text ++ last) := by
  rw [List.flatMap_cons, List.append_assoc, passLineEnds_line, if_neg]
  rintro ⟨carriage, follows⟩
  obtain ⟨next, member, empty, feed⟩ := (head_ended unbroken ended).mp follows
  exact apart next member ⟨carriage, empty, feed⟩

/-- The end of a line that is not apart from the next one is read as a part of the end of that one. -/
theorem passLineEnds_joined (joined : ¬∀ next ∈ ended.head?, line.Apart next) :
    passLineEnds ((line :: ended).flatMap Line.text ++ last) =
      line.content ++ passLineEnds (ended.flatMap Line.text ++ last) := by
  obtain ⟨next, member, meets⟩ : ∃ next ∈ ended.head?, ¬line.Apart next := by
    simpa only [not_forall, exists_prop] using joined
  obtain ⟨carriage, empty, feed⟩ := not_not.mp meets
  rw [List.flatMap_cons, List.append_assoc, passLineEnds_line, if_pos]
  exact ⟨carriage, (head_ended unbroken ended).mpr ⟨next, member, empty, feed⟩⟩

/-- A line without an end has no line end. -/
theorem lineEnds_last : lineEnds last = 0 := by
  rw [lineEnds_eq_count, passLineEnds_last unbroken]
  exact List.count_eq_zero.mpr unbroken.1

/-- A line that is apart from the next one has a line end of its own. -/
theorem lineEnds_apart (apart : ∀ next ∈ ended.head?, line.Apart next) :
    lineEnds ((line :: ended).flatMap Line.text ++ last) =
      lineEnds (ended.flatMap Line.text ++ last) + 1 := by
  rw [lineEnds_eq_count, passLineEnds_apart unbroken apart, List.count_append, List.count_cons_self,
    List.count_eq_zero.mpr line.unbroken.1, Nat.zero_add, ← lineEnds_eq_count]

/-- A line that is not apart from the next one shares its line end. -/
theorem lineEnds_joined (joined : ¬∀ next ∈ ended.head?, line.Apart next) :
    lineEnds ((line :: ended).flatMap Line.text ++ last) = lineEnds (ended.flatMap Line.text ++ last) := by
  rw [lineEnds_eq_count, passLineEnds_joined unbroken joined, List.count_append,
    List.count_eq_zero.mpr line.unbroken.1, Nat.zero_add, ← lineEnds_eq_count]

/-- There are at most as many line ends as lines. -/
theorem lineEnds_le (ended : List Line) :
    lineEnds (ended.flatMap Line.text ++ last) ≤ ended.length := by
  induction ended with
  | nil => exact Nat.le_of_eq (lineEnds_last unbroken)
  | cons line ended ih =>
      by_cases apart : ∀ next ∈ ended.head?, line.Apart next
      · rw [lineEnds_apart unbroken apart]
        exact Nat.succ_le_succ ih
      · rw [lineEnds_joined unbroken apart]
        exact Nat.le_succ_of_le ih

/-- There are as many line ends as lines exactly if no two of them are read as one. A line end that is lost is
not made up for by the lines behind it. -/
theorem lineEnds_eq_length_iff (ended : List Line) :
    lineEnds (ended.flatMap Line.text ++ last) = ended.length ↔ ended.IsChain Line.Apart := by
  induction ended with
  | nil => exact iff_of_true (lineEnds_last unbroken) .nil
  | cons line ended ih =>
      rw [List.isChain_cons, ← ih, List.length_cons]
      by_cases apart : ∀ next ∈ ended.head?, line.Apart next
      · rw [lineEnds_apart unbroken apart, Nat.add_right_cancel_iff]
        exact (and_iff_right apart).symm
      · have bound := lineEnds_le unbroken ended
        rw [lineEnds_joined unbroken apart]
        exact iff_of_false (by omega) fun both => apart both.1

/-- Lines that are apart all get line feeds. -/
theorem passLineEnds_fed (apart : ended.IsChain Line.Apart) :
    passLineEnds (ended.flatMap Line.text ++ last) = (ended.map Line.fed).flatMap Line.text ++ last := by
  induction ended with
  | nil => exact passLineEnds_last unbroken
  | cons line ended ih =>
      obtain ⟨here, rest⟩ := List.isChain_cons.mp apart
      rw [passLineEnds_apart unbroken here, ih rest]
      simp [Line.fed, Line.text, LineEnd.text]

end Ended

namespace Lines

variable {lines : Lines}

/-- Lines that are apart are brought to one form. -/
theorem Apart.unifyLineEnds (apart : lines.Apart) : Text.unifyLineEnds lines.text = lines.fed.text := by
  rw [unifyLineEnds_eq_passLineEnds]
  exact passLineEnds_fed lines.unbroken apart

/-- Lines with line feeds are apart. -/
theorem fed_apart (lines : Lines) : lines.fed.Apart := by
  have apart (line next : Line) : line.fed.Apart next.fed := by
    rintro ⟨carriage, _⟩
    cases carriage
  apply List.Pairwise.isChain
  exact List.pairwise_map.mpr (List.pairwise_of_forall apart)

/-- Lines with line feeds have them already. -/
theorem fed_fed (lines : Lines) : lines.fed.fed = lines.fed := by
  simp [fed, Line.fed]

/-- Lines with line feeds are in one form already. -/
theorem unifyLineEnds_fed (lines : Lines) : Text.unifyLineEnds lines.fed.text = lines.fed.text := by
  rw [lines.fed_apart.unifyLineEnds, fed_fed]

/-- Lines with line feeds have one line end each. -/
theorem lineEnds_fed (lines : Lines) : lineEnds lines.fed.text = lines.ended.length := by
  have all := (lineEnds_eq_length_iff lines.unbroken _).mpr lines.fed_apart
  exact all.trans (List.length_map _)

end Lines

end Text

namespace Token

/-- The file ends on the line that its line ends lead to. -/
theorem line_of_endOfFile {source : String} {token : Token} (member : token ∈ (scan source).1)
    (finishes : token.kind = .endOfFile) : token.line = Text.lineEnds source.toList + 1 := by
  have fewer : (scan source).1.Sublist (read (Text.unifyLineEnds source.toList)).1 :=
    (joinNewlines_sublist _).trans (List.dropWhile_sublist _)
  have listed := Mark.mem_tokens.mp (fewer.subset member)
  obtain ⟨marks, margin, shifted, passes, _⟩ :=
    Margin.exists_passes_line (Text.unifyLineEnds source.toList)
  have whole := passes.whole
  change Mark.ofSource (Text.unifyLineEnds source.toList) = _ at whole
  rw [whole] at listed
  rcases List.mem_append.mp listed with before | behind
  · exact absurd finishes (passes.inside token before)
  · exact (Margin.mem_finish behind).1

/-- Texts that are scanned alike have equally many line ends. -/
theorem lineEnds_of_scan {source other : String} (same : scan source = scan other) :
    Text.lineEnds source.toList = Text.lineEnds other.toList := by
  obtain ⟨token, member, finishes⟩ := scan_ended source
  have here := line_of_endOfFile member finishes
  have there := line_of_endOfFile (same ▸ member) finishes
  omega

/-- The lines of a text may end in any way: it is scanned to the same tokens and faults as the same lines with
line feeds. This fails exactly where a carriage return stands in front of the line feed of an empty line. To join
pairs first and then to replace carriage returns is to read each line end once, from left to right. -/
theorem scan_line_styles (lines : Text.Lines) :
    (scan (String.ofList lines.text) = scan (String.ofList lines.fed.text) ↔ lines.Apart) ∧
      ∀ text, Text.unifyLineEnds text = Text.passLineEnds text := by
  refine ⟨⟨fun same => ?_, fun apart => ?_⟩, Text.unifyLineEnds_eq_passLineEnds⟩
  · apply (Text.lineEnds_eq_length_iff lines.unbroken lines.ended).mp
    have count := lineEnds_of_scan same
    rw [String.toList_ofList, String.toList_ofList, lines.lineEnds_fed] at count
    exact count
  · unfold scan
    rw [String.toList_ofList, String.toList_ofList, apart.unifyLineEnds, lines.unifyLineEnds_fed]

/-- A carriage return stays a line end of its own in front of a pair, but not in front of a line feed. -/
theorem scan_line_styles_mixed :
    scan "print 'a\rb'\r\r\n  $\nc" = scan "print 'a\nb'\n\n  $\nc" ∧
      scan "a\r\nb" ≠ scan "a\n\nb" := by
  let mixed : Text.Lines :=
    ⟨[⟨"print 'a".toList, .carriage, by decide, by decide⟩, ⟨"b'".toList, .carriage, by decide, by decide⟩,
        ⟨[], .pair, by decide, by decide⟩, ⟨"  $".toList, .feed, by decide, by decide⟩],
      ['c'], by decide, by decide⟩
  let joined : Text.Lines :=
    ⟨[⟨['a'], .carriage, by decide, by decide⟩, ⟨[], .feed, by decide, by decide⟩], ['b'], by decide,
      by decide⟩
  have apart : mixed.Apart := by simp [mixed, Text.Lines.Apart, Text.Line.Apart]
  have meets : ¬joined.Apart := by simp [joined, Text.Lines.Apart, Text.Line.Apart]
  exact ⟨(scan_line_styles mixed).1.mpr apart, fun same => meets ((scan_line_styles joined).1.mp same)⟩

end Token

end OffsideScript
