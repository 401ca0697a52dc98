import OffsideScript.Proofs.Grammar.Completeness.Statement
import OffsideScript.Proofs.Grammar.Moving
import OffsideScript.Proofs.Token.Writing

namespace OffsideScript

mutual

/-- Every block of the statement has a statement in it. -/
def Statement.Filled : Statement → Prop
  | .branch branches => FilledBranches branches
  | .loop _ body => body ≠ [] ∧ FilledAll body
  | .function _ _ body => body ≠ [] ∧ FilledAll body
  | _ => True

def Statement.FilledAll : List Statement → Prop
  | [] => True
  | statement :: rest => statement.Filled ∧ FilledAll rest

def Statement.FilledBranches : List (Expression × List Statement) → Prop
  | [] => True
  | (_, body) :: rest => (body ≠ [] ∧ FilledAll body) ∧ FilledBranches rest

end

/-- Tokens that all stand in one line. -/
def InLine (tokens : List Token) : Prop :=
  ∀ token ∈ tokens, token.kind.IsWritten

namespace InLine

theorem nil : InLine [] := nofun

/-- A written token joins those in a line. -/
theorem cons {token : Token} {tokens : List Token} {kind : Token.Kind} (found : token.kind = kind)
    (solid : kind.IsWritten) (others : InLine tokens) : InLine (token :: tokens) :=
  List.forall_mem_cons.mpr ⟨found ▸ solid, others⟩

/-- Tokens in a line are followed by tokens in a line. -/
theorem append {before after : List Token} (left : InLine before) (right : InLine after) :
    InLine (before ++ after) :=
  List.forall_mem_append.mpr ⟨left, right⟩

/-- The first token in a line is written. -/
theorem head {token : Token} {tokens : List Token} (solid : InLine (token :: tokens)) :
    token.kind.IsWritten :=
  solid token List.mem_cons_self

/-- The tokens after the first stand in a line too. -/
theorem tail {token : Token} {tokens : List Token} (solid : InLine (token :: tokens)) :
    InLine tokens :=
  fun other member => solid other (List.mem_cons_of_mem _ member)

end InLine

/-- A list of names stands in a line. -/
theorem Names.inLine {tokens names : List Token} (listed : Names tokens names) :
    InLine tokens := by
  induction listed with
  | single named => exact .cons named (by decide) .nil
  | cons named separates _ ih => exact .cons named (by decide) (.cons separates (by decide) ih)

namespace Written

variable {margin : Margin} {tokens rest : List Token} {text : List Char}

/-- Tokens in a line can be written before what is written there. -/
theorem exists_inLine (solid : InLine tokens)
    (written : Written margin .inLine rest text) :
    ∃ whole, Written margin .inLine (tokens ++ rest) whole := by
  induction tokens with
  | nil => exact ⟨text, written⟩
  | cons token tokens ih =>
      obtain ⟨whole, further⟩ := ih solid.tail
      have blank : Text.IsBlank [' '] := by simp [Text.IsBlank]
      exact ⟨_, .next solid.head blank (by simp) further⟩

/-- A written token can start a line. -/
theorem exists_first {token : Token} {slot : Slot} (starts : slot ≠ .inLine)
    (solid : token.kind.IsWritten) (written : Written margin .inLine rest text) :
    ∃ whole, Written margin slot (token :: rest) whole := by
  have blank : Text.IsBlank (List.replicate margin.width ' ') :=
    fun character member => .inl (List.eq_of_mem_replicate member)
  have aligned : Text.blankWidth (List.replicate margin.width ' ') = margin.width := by
    induction margin.width with
    | zero => rfl
    | succ width ih =>
        rw [List.replicate_succ, Text.blankWidth, ih, if_neg (by decide)]
        exact Nat.add_comm 1 width
  exact ⟨_, .first starts solid blank aligned written⟩

/-- The tokens of a line before other lines. -/
theorem exists_line {slot : Slot} {newline : Token} (starts : slot ≠ .inLine)
    (nonempty : tokens ≠ []) (solid : InLine tokens) (ends : newline.kind = .newline)
    (written : Written margin .lineStart rest text) :
    ∃ whole, Written margin slot ((tokens ++ [newline]) ++ rest) whole := by
  obtain ⟨token, tokens, rfl⟩ := List.exists_cons_of_ne_nil nonempty
  obtain ⟨line, inside⟩ := exists_inLine solid.tail (.lineEnd ends written)
  obtain ⟨whole, written⟩ := exists_first starts solid.head inside
  exact ⟨whole, by simpa using written⟩

end Written

/-- The tokens of a phrase can be written out in front of a text. -/
def Phrase.Writable (tokens : List Token) : Phrase → Prop
  | expression _ _ | items _ | list _ | pairs _ | entries _ => InLine tokens
  | statement tree => tree.Filled → ∀ margin slot rest text, slot ≠ .inLine →
      Written margin .lineStart rest text → ∃ whole, Written margin slot (tokens ++ rest) whole
  | block trees => trees ≠ [] ∧ Statement.FilledAll trees → ∀ margin rest text,
      Written margin .lineStart rest text → ∃ whole, Written margin .inLine (tokens ++ rest) whole
  | branches trees => Statement.FilledBranches trees → ∀ margin rest text,
      Written margin .lineStart rest text →
        ∃ whole, Written margin .lineStart (tokens ++ rest) whole
  | statements trees => Statement.FilledAll trees → ∀ margin slot rest text,
      slot ≠ .inLine → (trees = [] → slot = .lineStart) →
      Written margin .lineStart rest text → ∃ whole, Written margin slot (tokens ++ rest) whole

namespace Phrase.Writable

variable {tokens body header rest : List Token} {newline : Token} {tree : Statement}
  {trees : List Statement} {branchTrees : List (Expression × List Statement)}

/-- A statement is written on a line of its own. -/
theorem line (nonempty : tokens ≠ []) (solid : InLine tokens) (ends : newline.kind = .newline) :
    (statement tree).Writable (tokens ++ [newline]) :=
  fun _ _ _ _ _ starts written => Written.exists_line starts nonempty solid ends written

/-- A block is written between its indent and its dedent. -/
theorem indented {indent dedent : Token} (opens : indent.kind = .indent)
    (closes : dedent.kind = .dedent) (inner : (statements trees).Writable body) :
    (block trees).Writable (indent :: (body ++ [dedent])) := by
  intro filled margin rest text written
  obtain ⟨inside, written⟩ := inner filled.2 ((margin.width + 1) :: margin) .blockStart
    (dedent :: rest) text (by decide) (fun empty => absurd empty filled.1) (.close closes written)
  exact ⟨_, by simpa using Written.block opens (Nat.lt_succ_self _) written⟩

/-- A colon can be written before a block. -/
theorem announced {colon : Token} (announces : colon.kind = .colon)
    (inner : (block trees).Writable body) : (block trees).Writable (colon :: body) := by
  intro filled margin rest text written
  obtain ⟨inside, written⟩ := inner filled margin rest text written
  have solid : InLine [colon] := .cons announces (by decide) .nil
  have line := Written.exists_inLine solid written
  exact line

/-- The header of a block and the block under it, before other lines. -/
theorem headed (nonempty : header ≠ []) (solid : InLine header) (inner : (block trees).Writable body)
    (filled : trees ≠ [] ∧ Statement.FilledAll trees) {margin : Margin} {slot : Slot}
    {text : List Char} (starts : slot ≠ .inLine) (written : Written margin .lineStart rest text) :
    ∃ whole, Written margin slot (header ++ (body ++ rest)) whole := by
  obtain ⟨token, header, rfl⟩ := List.exists_cons_of_ne_nil nonempty
  obtain ⟨below, written⟩ := inner filled margin rest text written
  obtain ⟨inside, written⟩ := Written.exists_inLine solid.tail written
  exact Written.exists_first starts solid.head written

end Phrase.Writable

/-- Every phrase can be written out. A text is built from its end: a block can close only when the line after it
is known. -/
theorem Derives.writable {first last : NodeId} {tokens : List Token} {phrase : Phrase}
    (derives : Derives first tokens phrase last) : phrase.Writable tokens := by
  induction derives with
  | tighter _ _ ih | someItems _ ih | lastItem _ ih | somePairs _ ih => exact ih
  | noItems | noPairs => exact .nil
  | join joins _ _ ihLeft ihRight => exact .append ihLeft (.cons rfl joins.isWritten ihRight)
  | assign named assigns _ ih => exact .cons named (by decide) (.cons assigns (by decide) ih)
  | setIndex opens closes assigns _ _ _ ihObject ihPosition ihValue =>
      exact .append ihObject (.cons opens (by decide) (.append ihPosition
        (.cons closes (by decide) (.cons assigns (by decide) ihValue))))
  | conditional asks separates _ _ _ ihCondition ihTrue ihFalse =>
      exact .append ihCondition (.cons asks (by decide)
        (.append ihTrue (.cons separates (by decide) ihFalse)))
  | power raises _ _ ihLower ihUpper => exact .append ihLower (.cons raises (by decide) ihUpper)
  | negate signs _ ih => exact .cons signs (by decide) ih
  | not signs _ ih => exact .cons signs (by decide) ih
  | call opens closes _ _ ihOuter ihInner | index opens closes _ _ ihOuter ihInner =>
      exact .append ihOuter (.cons opens (by decide)
        (.append ihInner (.cons closes (by decide) .nil)))
  | literal kind =>
      rcases kind with kind | kind
      · exact .cons kind (by decide) .nil
      · exact .cons kind (by decide) .nil
  | trueWord kind | falseWord kind | nihlWord kind | name kind =>
      exact .cons kind (by decide) .nil
  | group opens closes _ ih | array opens closes _ ih | map opens closes _ ih =>
      exact .cons opens (by decide) (.append ih (.cons closes (by decide) .nil))
  | nextItem separates _ _ ihItem ihOthers =>
      exact .append ihItem (.cons separates (by decide) ihOthers)
  | lastPair points _ _ ihKey ihValue => exact .append ihKey (.cons points (by decide) ihValue)
  | nextPair points separates _ _ _ ihKey ihValue ihOthers =>
      exact .append ihKey (.cons points (by decide)
        (.append ihValue (.cons separates (by decide) ihOthers)))
  | print starts ends _ ih | retValue starts ends _ ih =>
      exact .line (List.cons_ne_nil _ _) (.cons starts (by decide) ih) ends
  | declare starts named ends =>
      exact .line (List.cons_ne_nil _ _)
        (.cons starts (by decide) (.cons named (by decide) .nil)) ends
  | declareValue starts named assigns ends _ ih =>
      exact .line (List.cons_ne_nil _ _) (.cons starts (by decide) (.cons named (by decide)
        (.cons assigns (by decide) ih))) ends
  | ret starts ends | breakLoop starts ends | continueLoop starts ends =>
      exact .line (List.cons_ne_nil _ _) (.cons starts (by decide) .nil) ends
  | evaluate ends inner ih =>
      obtain ⟨token, rest, rfl, _⟩ := inner.opens
      exact .line (List.cons_ne_nil _ _) ih ends
  | block opens closes _ ih => exact .indented opens closes ih
  | colonBlock announces opens closes _ ih => exact .announced announces (.indented opens closes ih)
  | branch starts _ _ _ ihCondition ihBody ihOthers =>
      intro filled margin slot rest text free written
      obtain ⟨further, written⟩ := ihOthers filled.2 margin rest text written
      have header := InLine.cons starts (by decide) ihCondition
      obtain ⟨whole, written⟩ := ihBody.headed (List.cons_ne_nil _ _) header filled.1 free written
      exact ⟨whole, by simpa using written⟩
  | loop starts _ _ ihCondition ihBody =>
      intro filled margin slot rest text free written
      have header := InLine.cons starts (by decide) ihCondition
      obtain ⟨whole, written⟩ := ihBody.headed (List.cons_ne_nil _ _) header filled free written
      exact ⟨whole, by simpa using written⟩
  | procedure starts named opens closes _ ih =>
      intro filled margin slot rest text free written
      have header := InLine.cons starts (by decide) (.cons named (by decide)
        (.cons opens (by decide) (.cons closes (by decide) .nil)))
      obtain ⟨whole, written⟩ := ih.headed (List.cons_ne_nil _ _) header filled free written
      exact ⟨whole, by simpa using written⟩
  | function starts named opens listed closes _ ih =>
      intro filled margin slot rest text free written
      have header := InLine.cons starts (by decide) (.cons named (by decide)
        (.cons opens (by decide) (.append listed.inLine (.cons closes (by decide) .nil))))
      obtain ⟨whole, written⟩ := ih.headed (List.cons_ne_nil _ _) header filled free written
      exact ⟨whole, by simpa using written⟩
  | noBranch => exact fun _ _ _ text written => ⟨text, written⟩
  | elif starts _ _ _ ihCondition ihBody ihOthers =>
      intro filled margin rest text written
      obtain ⟨further, written⟩ := ihOthers filled.2 margin rest text written
      have header := InLine.cons starts (by decide) ihCondition
      have free : Slot.lineStart ≠ .inLine := by decide
      obtain ⟨whole, written⟩ := ihBody.headed (List.cons_ne_nil _ _) header filled.1 free written
      exact ⟨whole, by simpa using written⟩
  | otherwise starts _ ih =>
      intro filled margin rest text written
      have header := InLine.cons starts (by decide) .nil
      have free : Slot.lineStart ≠ .inLine := by decide
      exact ih.headed (List.cons_ne_nil _ _) header filled.1 free written
  | noStatement =>
      intro _ margin slot rest text _ empty written
      rw [empty rfl]
      exact ⟨text, written⟩
  | nextStatement _ _ ih ihOthers =>
      intro filled margin slot rest text free _ written
      obtain ⟨further, written⟩ :=
        ihOthers filled.2 margin .lineStart rest text (by decide) (fun _ => rfl) written
      obtain ⟨whole, written⟩ := ih filled.1 margin slot _ further free written
      exact ⟨whole, by simpa using written⟩

/-- No end of file is written. -/
theorem Written.live {margin : Margin} {slot : Slot} {tokens : List Token} {text : List Char}
    (written : Written margin slot tokens text) :
    ∀ token ∈ tokens, token.kind ≠ .endOfFile := by
  induction written with
  | done => exact nofun
  | first _ solid _ _ _ ih => exact List.forall_mem_cons.mpr ⟨solid.ne (by decide), ih⟩
  | next solid _ _ _ ih => exact List.forall_mem_cons.mpr ⟨solid.ne (by decide), ih⟩
  | lineEnd kind _ ih => exact List.forall_mem_cons.mpr ⟨by rw [kind]; decide, ih⟩
  | block kind _ _ ih => exact List.forall_mem_cons.mpr ⟨by rw [kind]; decide, ih⟩
  | close kind _ ih => exact List.forall_mem_cons.mpr ⟨by rw [kind]; decide, ih⟩
  | lastLine kind closes =>
      refine List.forall_mem_cons.mpr ⟨by rw [kind]; decide, fun token member => ?_⟩
      rw [closes token member]
      decide

namespace Program

/-- A program whose blocks have statements and whose tokens are well spelled can be written out, and
from every text that writes it out it is read back, but for lines. -/
theorem scan_written {tokens : List Token} {program : Program} {last : NodeId}
    (derives : Derives 0 tokens (.statements program) last)
    (filled : Statement.FilledAll program) (spelled : ∀ token ∈ tokens, token.Spelled) :
    (∃ source : String, Written [] .lineStart tokens source.toList) ∧
    ∀ source : String, Written [] .lineStart tokens source.toList →
      ∃ laid read, Token.scan source = (laid, []) ∧ Program.ofTokens laid = (read, []) ∧
        Statement.unlinedAll read = Statement.unlinedAll program ∧
        Statement.nodesAll read = List.range last := by
  constructor
  · obtain ⟨text, written⟩ :=
      derives.writable filled [] .lineStart [] [] (by decide) (fun _ => rfl) .done
    rw [List.append_nil] at written
    exact ⟨String.ofList text, by rwa [String.toList_ofList]⟩
  · intro source written
    obtain ⟨laid, scanned, same⟩ := written.scan_eq spelled
    have whole : (tokens ++ [Token.structural .endOfFile 0]).takeWhile (·.kind ≠ .endOfFile) = tokens := by
      rw [List.takeWhile_append_of_pos (by simpa using written.live),
        List.takeWhile_cons_of_neg (by simp [Token.structural]), List.append_nil]
    have again : ofTokens (tokens ++ [Token.structural .endOfFile 0]) = (program, []) :=
      ofTokens_of_derives (whole.symm ▸ derives)
    have alike : laid.map Token.unlined =
        (tokens ++ [Token.structural .endOfFile 0]).map Token.unlined := by
      rw [same, List.map_append]
      rfl
    obtain ⟨read, found, trees, nodes⟩ := ofTokens_of_unlined (by simp) again alike
    refine ⟨laid, read, scanned, found, trees, ?_⟩
    rw [nodes, List.range_eq_range']
    exact derives.nodes_consecutive.2

/-- The tokens of a loop in a branch that prints a text of two lines. -/
def nestedTokens : List Token :=
  [⟨.ifWord, "if", 1, none⟩, ⟨.identifier, "a", 1, none⟩, .structural .indent 1,
    ⟨.whileWord, "while", 1, none⟩, ⟨.identifier, "b", 1, none⟩, ⟨.colon, ":", 1, none⟩,
    .structural .indent 1, ⟨.printWord, "print", 1, none⟩,
    ⟨.text, "'x\ny'", 1, some (.text "x\ny")⟩, .structural .newline 1,
    .structural .dedent 1, .structural .dedent 1]

/-- Every token of the nested blocks is spelled. -/
theorem nestedTokens_spelled : ∀ token ∈ nestedTokens, token.Spelled := by
  have word (name : Char) (starts : Piece.isWordStart name = true) :
      Piece.IsWord [name] := ⟨name, [], rfl, starts, nofun⟩
  simp only [nestedTokens, List.forall_mem_cons]
  refine ⟨⟨rfl, rfl⟩, ⟨word 'a' rfl, by decide, rfl⟩, ⟨rfl, rfl⟩, ⟨rfl, rfl⟩,
    ⟨word 'b' rfl, by decide, rfl⟩, ⟨rfl, rfl⟩, ⟨rfl, rfl⟩, ⟨rfl, rfl⟩,
    ⟨['x', '\n', 'y'], by simp, rfl, rfl⟩, ⟨rfl, rfl⟩, ⟨rfl, rfl⟩, ⟨rfl, rfl⟩, nofun⟩

/-- The nested blocks are written with two spaces and with a tab. -/
theorem nestedTokens_written :
    Written [] .lineStart nestedTokens "if a\n  while b :\n\tprint 'x\ny'".toList := by
  have space : Text.IsBlank [' '] := by simp [Text.IsBlank]
  have spaces : Text.IsBlank [' ', ' '] := by simp [Text.IsBlank]
  have tab : Text.IsBlank ['\t'] := by simp [Text.IsBlank]
  have apart : [' '] ≠ [] := by decide
  have closes : ∀ dedent ∈ [Token.structural .dedent 1, .structural .dedent 1],
      dedent.kind = .dedent := by simp [Token.structural]
  change Written [] .lineStart nestedTokens ([] ++ ("if".toList ++ ([' '] ++ ("a".toList ++
    '\n' :: ([' ', ' '] ++ ("while".toList ++ ([' '] ++ ("b".toList ++ ([' '] ++ (":".toList ++
    '\n' :: (['\t'] ++ ("print".toList ++ ([' '] ++ ("'x\ny'".toList ++ []))))))))))))))
  refine .first (by decide) (by decide) nofun rfl (.next (by decide) space apart ?_)
  refine .block rfl (show 0 < 2 by decide) ?_
  refine .first (by decide) (by decide) spaces rfl (.next (by decide) space apart ?_)
  refine .next (by decide) space apart (.block rfl (show 2 < 4 by decide) ?_)
  refine .first (by decide) (by decide) tab rfl (.next (by decide) space apart ?_)
  exact .lastLine rfl closes rfl

/-- Nested blocks, written with a tab and with a text over two lines, are read back. -/
theorem scan_written_nested :
    ∃ program last, Derives 0 nestedTokens (.statements program) last ∧
      Statement.FilledAll program ∧ (∀ token ∈ nestedTokens, token.Spelled) ∧
      Written [] .lineStart nestedTokens "if a\n  while b :\n\tprint 'x\ny'".toList ∧
      ∃ laid read, Token.scan "if a\n  while b :\n\tprint 'x\ny'" = (laid, []) ∧
        Program.ofTokens laid = (read, []) ∧
        Statement.unlinedAll read = Statement.unlinedAll program ∧
        Statement.nodesAll read = List.range last := by
  have clean : (Program.ofTokens nestedTokens).2 = [] := by decide
  obtain ⟨last, derives⟩ := derives_of_ofTokens clean
  have filled : Statement.FilledAll (Program.ofTokens nestedTokens).1 :=
    ⟨⟨⟨nofun, ⟨nofun, trivial, trivial⟩, trivial⟩, trivial⟩, trivial⟩
  exact ⟨_, last, derives, filled, nestedTokens_spelled, nestedTokens_written,
    (scan_written derives filled nestedTokens_spelled).2 _ nestedTokens_written⟩

end Program

end OffsideScript
