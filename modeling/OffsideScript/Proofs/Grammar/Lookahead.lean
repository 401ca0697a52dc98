import OffsideScript.Proofs.Grammar.Derivation
import OffsideScript.Proofs.Grammar.Progress

namespace OffsideScript

/-- The level of the expressions that a token of this kind continues. -/
def Token.Kind.continued? : Token.Kind → Option Level
  | comma => some .sequence
  | equal => some .assignment
  | question => some .conditional
  | orWord | xorWord => some .disjunction
  | andWord => some .conjunction
  | equalEqual | bangEqual => some .equality
  | less | lessEqual | greater | greaterEqual => some .comparison
  | plus | minus | plusPlus => some .sum
  | star | slash | percent => some .product
  | caret => some .power
  | leftParen | leftBracket => some .application
  | _ => none

/-- The tightest level of the expressions that a token of this kind starts. -/
def Token.Kind.opened? : Token.Kind → Option Level
  | minus | bang => some .sign
  | number | text | identifier | trueWord | falseWord | nihlWord => some .atom
  | leftParen | leftBracket | leftBrace => some .atom
  | _ => none

namespace Level

/-- An expression of the level ends before a token of this kind, which continues at most an
expression of a looser level. -/
def Stops (level : Level) (kind : Token.Kind) : Prop :=
  ∀ other, kind.continued? = some other → level.rank < other.rank

instance (level : Level) (kind : Token.Kind) : Decidable (level.Stops kind) :=
  inferInstanceAs (Decidable (∀ other ∈ kind.continued?, level.rank < other.rank))

/-- A token of this kind may be the first one of an expression of the level. -/
def OpensWith (level : Level) (kind : Token.Kind) : Prop :=
  ∃ other, kind.opened? = some other ∧ other.rank ≤ level.rank

/-- The tokens start as an expression of the level may start. -/
def Opens (level : Level) (tokens : List Token) : Prop :=
  ∃ token rest, tokens = token :: rest ∧ level.OpensWith token.kind

/-- Each level ranks one above the next tighter one. -/
theorem rank_tighter {level : Level} (looser : level ≠ .atom) :
    level.tighter.rank + 1 = level.rank := by
  cases level with
  | atom => exact absurd rfl looser
  | _ => rfl

/-- What stops an expression stops its operands. -/
theorem Stops.tighter {level : Level} {kind : Token.Kind} (stops : level.Stops kind) :
    level.tighter.Stops kind := by
  intro other continued
  have looser := stops other continued
  have lower : level.tighter.rank ≤ level.rank := by cases level <;> decide
  omega

/-- A token that continues no expression stops them all. -/
theorem stops_of_none {level : Level} {kind : Token.Kind} (plain : kind.continued? = none) :
    level.Stops kind := by
  intro other continued
  rw [plain] at continued
  cases continued

/-- A token of a kind that stops an expression stops it. -/
theorem stops_of_kind {level : Level} {kind found : Token.Kind} (same : found = kind)
    (stops : level.Stops kind) : level.Stops found :=
  same ▸ stops

/-- An operator of a looser level stops an expression. -/
theorem stops_of_some {level other : Level} {kind : Token.Kind}
    (continued : kind.continued? = some other) (looser : level.rank < other.rank) :
    level.Stops kind := by
  intro found same
  rw [continued] at same
  cases same
  exact looser

/-- What stops an expression is none of its own operators. -/
theorem Stops.ne {level other : Level} {kind operator : Token.Kind} (stops : level.Stops kind)
    (continued : operator.continued? = some other) (tighter : other.rank ≤ level.rank) :
    kind ≠ operator := by
  rintro rfl
  have looser := stops other continued
  omega

/-- An operator of a level continues expressions of that level. -/
theorem Joins.continued {level : Level} {kind : Token.Kind} {joiner : Joiner}
    (joins : level.Joins kind joiner) : kind.continued? = some level := by
  cases joins <;> rfl

/-- The reader finds an operator of a level there. -/
theorem Joins.joiner? {level : Level} {kind : Token.Kind} {joiner : Joiner}
    (joins : level.Joins kind joiner) : level.joiner? kind = some joiner := by
  cases joins <;> rfl

/-- The reader finds no operator of a level where its expressions stop. -/
theorem Stops.joiner? {level : Level} {kind : Token.Kind} (stops : level.Stops kind) :
    level.joiner? kind = none := by
  cases found : level.joiner? kind with
  | none => rfl
  | some joiner =>
      have looser := stops level (joins_of_joiner? found).continued
      omega

/-- What holds of a level and is handed on to the next looser one holds of all looser levels. -/
theorem loosen_induction {motive : Level → Prop} {low : Level} (start : motive low)
    (step : ∀ level, level ≠ .atom → motive level.tighter → motive level) (high : Level)
    (looser : low.rank ≤ high.rank) : motive high := by
  induction distance : high.rank - low.rank generalizing high with
  | zero =>
      have same : high.rank = low.rank := by omega
      have equal : high = low := by
        revert same
        cases high <;> cases low <;> decide
      exact equal ▸ start
  | succ distance ih =>
      have loose : high ≠ .atom := by
        rintro rfl
        have least : Level.atom.rank ≤ low.rank := by cases low <;> decide
        omega
      have next := rank_tighter loose
      exact step high loose (ih high.tighter (by omega) (by omega))

end Level

namespace Level.OpensWith

/-- What opens an expression opens every looser one. -/
theorem mono {tight loose : Level} {kind : Token.Kind} (opens : tight.OpensWith kind)
    (looser : tight.rank ≤ loose.rank) : loose.OpensWith kind := by
  obtain ⟨other, opened, lower⟩ := opens
  exact ⟨other, opened, Nat.le_trans lower looser⟩

/-- What opens an atom opens every expression. -/
theorem of_atom {level : Level} {kind : Token.Kind} (opened : kind.opened? = some .atom) :
    level.OpensWith kind :=
  ⟨.atom, opened, by cases level <;> decide⟩

/-- A token that opens nothing does not open an expression. -/
theorem ne {level : Level} {kind other : Token.Kind} (opens : level.OpensWith kind)
    (closed : other.opened? = none) : kind ≠ other := by
  rintro rfl
  obtain ⟨_, opened, _⟩ := opens
  rw [closed] at opened
  cases opened

/-- No sign comes before an application. -/
theorem unsigned {kind : Token.Kind} (opens : Level.application.OpensWith kind) :
    UnaryOperator.ofKind? kind = none := by
  obtain ⟨other, opened, lower⟩ := opens
  cases kind with
  | minus =>
      cases opened
      exact absurd lower (by decide)
  | bang =>
      cases opened
      exact absurd lower (by decide)
  | _ => rfl

end Level.OpensWith

namespace Level.Opens

/-- More tokens at the end do not change how an expression opens. -/
theorem append {level : Level} {tokens : List Token} (opens : level.Opens tokens)
    (more : List Token) : level.Opens (tokens ++ more) := by
  obtain ⟨token, rest, rfl, opens⟩ := opens
  exact ⟨token, rest ++ more, rfl, opens⟩

/-- Tokens that open an expression open every looser one. -/
theorem mono {tight loose : Level} {tokens : List Token} (opens : tight.Opens tokens)
    (looser : tight.rank ≤ loose.rank) : loose.Opens tokens := by
  obtain ⟨token, rest, shape, opens⟩ := opens
  exact ⟨token, rest, shape, opens.mono looser⟩

end Level.Opens

/-- What is known of the first token of a phrase. -/
def Phrase.Opens : Phrase → List Token → Prop
  | expression level _, tokens => level.Opens tokens
  | items _, tokens | pairs _, tokens => Level.assignment.Opens tokens
  | statement _, tokens =>
      ∃ token rest, tokens = token :: rest ∧ token.kind ∉ [.dedent, .elifWord, .elseWord]
  | block _, tokens => ∃ token rest, tokens = token :: rest ∧ token.kind ∈ [.colon, .indent]
  | statements _, tokens =>
      ∀ token rest, tokens = token :: rest → token.kind ∉ [.dedent, .elifWord, .elseWord]
  | _, _ => True

/-- A phrase that is derived opens as phrases of its kind do. -/
theorem Derives.opens {first last : NodeId} {tokens : List Token} {phrase : Phrase}
    (derives : Derives first tokens phrase last) : phrase.Opens tokens := by
  induction derives with
  | @tighter level _ _ _ _ looser _ ih =>
      have lower := Level.rank_tighter looser
      exact Level.Opens.mono ih (by omega)
  | join _ _ _ ih _ => exact Level.Opens.append ih _
  | assign named => exact ⟨_, _, rfl, .of_atom (by rw [named]; rfl)⟩
  | setIndex _ _ _ _ _ _ ih => exact (Level.Opens.mono ih (by decide)).append _
  | conditional _ _ _ _ _ ih => exact (Level.Opens.mono ih (by decide)).append _
  | power _ _ _ ih => exact (Level.Opens.mono ih (by decide)).append _
  | negate signs => exact ⟨_, _, rfl, .sign, by rw [signs]; rfl, Nat.le_refl _⟩
  | not signs => exact ⟨_, _, rfl, .sign, by rw [signs]; rfl, Nat.le_refl _⟩
  | call _ _ _ _ ih => exact Level.Opens.append ih _
  | index _ _ _ _ ih => exact Level.Opens.append ih _
  | literal kind =>
      refine ⟨_, _, rfl, .of_atom ?_⟩
      rcases kind with kind | kind <;> rw [kind] <;> rfl
  | trueWord keyword => exact ⟨_, _, rfl, .of_atom (by rw [keyword]; rfl)⟩
  | falseWord keyword => exact ⟨_, _, rfl, .of_atom (by rw [keyword]; rfl)⟩
  | nihlWord keyword => exact ⟨_, _, rfl, .of_atom (by rw [keyword]; rfl)⟩
  | name named => exact ⟨_, _, rfl, .of_atom (by rw [named]; rfl)⟩
  | group kind => exact ⟨_, _, rfl, .of_atom (by rw [kind]; rfl)⟩
  | array kind => exact ⟨_, _, rfl, .of_atom (by rw [kind]; rfl)⟩
  | map kind => exact ⟨_, _, rfl, .of_atom (by rw [kind]; rfl)⟩
  | lastItem _ ih => exact ih
  | nextItem _ _ _ ih => exact Level.Opens.append ih _
  | lastPair _ _ _ ih => exact Level.Opens.append ih _
  | nextPair _ _ _ _ _ ih => exact Level.Opens.append ih _
  | print starts | declare starts | declareValue starts | branch starts | loop starts
    | procedure starts | function starts | ret starts | retValue starts | breakLoop starts
    | continueLoop starts => exact ⟨_, _, rfl, by rw [starts]; decide⟩
  | evaluate _ _ ih =>
      obtain ⟨token, rest, rfl, opens⟩ := ih
      refine ⟨token, rest ++ _, rfl, ?_⟩
      simp only [List.mem_cons, List.not_mem_nil, or_false, not_or]
      exact ⟨opens.ne rfl, opens.ne rfl, opens.ne rfl⟩
  | block opens => exact ⟨_, _, rfl, by rw [opens]; decide⟩
  | colonBlock announces => exact ⟨_, _, rfl, by rw [announces]; decide⟩
  | noStatement => exact nofun
  | nextStatement _ _ ih _ =>
      obtain ⟨head, others, rfl, opens⟩ := ih
      rintro token rest shape
      cases shape
      exact opens
  | _ => trivial

end OffsideScript
