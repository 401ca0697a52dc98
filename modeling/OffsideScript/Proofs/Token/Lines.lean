import OffsideScript.Proofs.Token.Seam

namespace OffsideScript

/-- At the end of a text nothing is written. -/
theorem Margin.finish_structural (margin : Margin) (line : Nat) :
    ∀ mark ∈ margin.finish line, ∃ kind : Token.Kind, ¬kind.IsWritten ∧ mark = .structural kind line := by
  intro mark member
  unfold finish at member
  rcases List.mem_append.mp member with before | last
  · rcases List.mem_cons.mp before with newline | closes
    · exact ⟨.newline, by decide, newline⟩
    · exact ⟨.dedent, by decide, List.eq_of_mem_replicate closes⟩
  · exact ⟨.endOfFile, by decide, List.mem_singleton.mp last⟩

/-- What stands at the end of a text is on its last line and is not written. -/
theorem Margin.mem_finish {margin : Margin} {line : Nat} {token : Token}
    (member : .token token ∈ margin.finish line) : token.line = line ∧ ¬token.kind.IsWritten := by
  obtain ⟨kind, unwritten, same⟩ := margin.finish_structural line _ member
  cases same
  exact ⟨rfl, unwritten⟩

/-- The marks at the end of a text are on its last line. -/
theorem Margin.finish_line (margin : Margin) (line : Nat) :
    ∀ mark ∈ margin.finish line, mark.line = line := by
  intro mark member
  obtain ⟨kind, _, rfl⟩ := margin.finish_structural line mark member
  rfl

/-- What is read from a line on stands on this line or below. -/
theorem Margin.read_mark_le {pieces : List Piece} (proper : ∀ piece ∈ pieces, piece.IsProper)
    (margin : Margin) (line : Nat) (column : Option Nat) :
    ∀ mark ∈ margin.read line column pieces, line ≤ mark.line := by
  intro mark member
  obtain ⟨marks, after, shifted, passes⟩ := exists_passes pieces proper margin line column
  rw [passes.whole] at member
  rcases List.mem_append.mp member with early | late
  · exact (passes.lines mark early).1
  · rw [after.finish_line _ mark late]
    omega

namespace Token

/-- What is scanned is among what is read. -/
theorem exists_raw {source : String} {tokens : List Token} (scanned : scan source = (tokens, [])) :
    ∃ raw : List Token, Mark.ofSource (Text.unifyLineEnds source.toList) = raw.map .token ∧
      ∀ token ∈ tokens, token ∈ raw := by
  obtain ⟨raw, marks, rfl⟩ := marks_of_scan scanned
  have fewer : (layout raw).Sublist raw :=
    (joinNewlines_sublist _).trans (List.dropWhile_sublist _)
  exact ⟨raw, marks, fun token member => fewer.subset member⟩

/-- Lines are counted from one. -/
theorem scan_line_pos {source : String} {tokens : List Token} (scanned : scan source = (tokens, []))
    {token : Token} (member : token ∈ tokens) : 0 < token.line := by
  obtain ⟨raw, marks, among⟩ := exists_raw scanned
  have listed : .token token ∈ Mark.ofSource (Text.unifyLineEnds source.toList) := by
    rw [marks]
    exact List.mem_map_of_mem (among token member)
  have proper := Piece.cut_proper (Text.unifyLineEnds source.toList)
  obtain ⟨early, margin, shifted, passes⟩ := Margin.exists_passes _ proper [] 1 none
  have whole := passes.whole
  change Mark.ofSource (Text.unifyLineEnds source.toList) = _ at whole
  rw [whole] at listed
  rcases List.mem_append.mp listed with before | behind
  · have bounds := passes.lines _ before
    exact bounds.1
  · have bounds := (Margin.mem_finish behind).1
    omega

/-- If the last line of a text has its end, what is written stands on lines with an end. -/
theorem scan_line_le {source : String} {tokens : List Token}
    (scanned : scan source = (tokens, [])) (ends : Text.EndsLine source.toList) {token : Token}
    (member : token ∈ tokens) (written : token.kind.IsWritten) :
    token.line ≤ Text.lineEnds source.toList := by
  obtain ⟨raw, marks, among⟩ := exists_raw scanned
  have listed : .token token ∈ Mark.ofSource (Text.unifyLineEnds source.toList) := by
    rw [marks]
    exact List.mem_map_of_mem (among token member)
  rcases ends.unifyLineEnds with nothing | ⟨opening, count, unified⟩
  · rw [nothing] at listed
    exact absurd written (Margin.mem_finish listed).2
  · have alone : Text.unifyLineEnds source.toList = opening ++ ['\n'] := by
      have single := unified []
      rwa [List.append_nil] at single
    rw [alone] at marks listed
    obtain ⟨early, margin, _, bounds, _, reads⟩ := ofSource_line marks
    rw [count]
    rw [reads [], List.map_append] at listed
    rcases List.mem_append.mp listed with before | behind
    · rcases List.mem_append.mp before with inside | newline
      · obtain ⟨_, known, ⟨⟩⟩ := List.mem_map.mp inside
        exact (bounds _ known).1
      · cases List.mem_singleton.mp newline
        exact absurd written (show ¬Kind.newline.IsWritten by decide)
    · exact absurd written (Margin.mem_finish behind).2

end Token

end OffsideScript
