import OffsideScript.Proofs.Number.Rounding

namespace OffsideScript

/-- An atom is a word, which may be an operator, or a constant. -/
inductive Atom where
  | word (text : String)
  | number (value : Number)
  | quoted (content : String)

namespace Atom

/-- What is written for an atom. -/
def text : Atom → String
  | word text => text
  | number value => Number.literalText value
  | quoted content => "'" ++ content ++ "'"

/-- What may stand in a word or a number is none of these. -/
def delimiters : List Char :=
  [' ', '(', ')', '\'']

/-- The first character of an atom tells words, numbers and quoted texts apart. -/
def IsProper : Atom → Prop
  | word text =>
      text ≠ "" ∧ (∀ character ∈ text.toList, character ∉ delimiters) ∧
        ∀ first ∈ text.toList.head?, first.isDigit = false
  | number value => Number.isFinite value = true ∧ Number.isNegative value = false
  | quoted content => '\'' ∉ content.toList

/-- What follows an atom or is empty. -/
def Closes (rest : List Char) : Prop :=
  ∀ first ∈ rest.head?, first ∈ delimiters

variable {left right : Atom} {leftRest rightRest : List Char}

/-- A proper number is written as a decimal. -/
theorem isDecimal_number {value : Number} (proper : (number value).IsProper) :
    Piece.IsDecimal (number value).text.toList := by
  rw [text, Number.literalText_eq_magnitudeText proper.1 proper.2]
  exact Number.isDecimal_magnitudeText value

/-- A decimal has no delimiters. -/
theorem not_mem_delimiters_of_isDecimal {digits : List Char} (decimal : Piece.IsDecimal digits) :
    ∀ character ∈ digits, character ∉ delimiters := by
  have plain {digits : List Char} (isDigits : Piece.IsDigits digits) :
      ∀ character ∈ digits, character ∉ delimiters := by
    intro character member delimiter
    have digit := isDigits.2 character member
    simp only [delimiters, List.mem_cons, List.not_mem_nil, or_false] at delimiter
    rcases delimiter with rfl | rfl | rfl | rfl <;> exact absurd digit (by decide)
  rcases decimal with whole | ⟨whole, fraction, rfl, before, after⟩
  · exact plain whole
  · intro character member
    rcases List.mem_append.mp member with inWhole | inFraction
    · exact plain before character inWhole
    · rcases List.mem_cons.mp inFraction with rfl | inFraction
      · decide
      · exact plain after character inFraction

/-- Words and numbers go up to the next delimiter. -/
def IsBare : Atom → Prop
  | word _ | number _ => True
  | quoted _ => False

/-- A word or a number has no delimiters. -/
theorem IsProper.characters {atom : Atom} (proper : atom.IsProper) (bare : atom.IsBare) :
    ∀ character ∈ atom.text.toList, character ∉ delimiters := by
  cases atom with
  | word text => exact proper.2.1
  | number value => exact not_mem_delimiters_of_isDecimal (isDecimal_number proper)
  | quoted content => exact bare.elim

/-- Something is written for every atom. -/
theorem IsProper.ne_nil {atom : Atom} (proper : atom.IsProper) : atom.text.toList ≠ [] := by
  cases atom with
  | word text => simpa [Atom.text] using proper.1
  | number value =>
      obtain ⟨first, rest, shape, _⟩ := (isDecimal_number proper).starts
      simp [shape]
  | quoted content => simp [text]

/-- Words and numbers end at the next delimiter, so equal texts start with equal ones. -/
theorem bare_unique (leftProper : left.IsProper) (rightProper : right.IsProper)
    (leftBare : left.IsBare) (rightBare : right.IsBare) (leftCloses : Closes leftRest)
    (rightCloses : Closes rightRest)
    (same : left.text.toList ++ leftRest = right.text.toList ++ rightRest) :
    left.text = right.text ∧ leftRest = rightRest := by
  have taken {atom : Atom} {rest : List Char} (proper : atom.IsProper) (bare : atom.IsBare)
      (closes : Closes rest) :
      (atom.text.toList ++ rest).takeWhile (· ∉ delimiters) = atom.text.toList := by
    apply Piece.takeWhile_eq
    · simpa using proper.characters bare
    · simpa [Closes] using closes
  have texts : left.text.toList = right.text.toList := by
    rw [← taken leftProper leftBare leftCloses, same, taken rightProper rightBare rightCloses]
  rw [texts] at same
  exact ⟨String.toList_inj.mp texts, List.append_cancel_left same⟩

/-- Quoted texts end at the next quotation mark, so equal texts start with equal ones. -/
theorem quoted_unique {left right : String} (leftPlain : '\'' ∉ left.toList)
    (rightPlain : '\'' ∉ right.toList)
    (same : (quoted left).text.toList ++ leftRest = (quoted right).text.toList ++ rightRest) :
    left = right ∧ leftRest = rightRest := by
  have taken {content : String} {rest : List Char} (plain : '\'' ∉ content.toList) :
      (content.toList ++ '\'' :: rest).takeWhile (· ≠ '\'') = content.toList := by
    apply Piece.takeWhile_eq
    · intro character member
      have other : character ≠ '\'' := fun quote => plain (quote ▸ member)
      simp [other]
    · simp
  have inside : left.toList ++ '\'' :: leftRest = right.toList ++ '\'' :: rightRest := by
    simpa [text] using same
  have contents : left.toList = right.toList := by
    rw [← taken leftPlain, inside, taken rightPlain]
  rw [contents] at inside
  exact ⟨String.toList_inj.mp contents, List.cons.inj (List.append_cancel_left inside) |>.2⟩

/-- A word or a number does not start with a quote. -/
theorem bare_ne_quoted {content : String} (proper : left.IsProper) (bare : left.IsBare) :
    left.text.toList ++ leftRest ≠ (quoted content).text.toList ++ rightRest := by
  intro same
  obtain ⟨first, rest, shape⟩ := List.exists_cons_of_ne_nil proper.ne_nil
  have outside := proper.characters bare first (by simp [shape])
  rw [shape] at same
  have quote : first = '\'' := by
    simpa [text] using congrArg List.head? same
  exact outside (by simp [quote, delimiters])

/-- No word is a number. -/
theorem word_ne_number {word : String} {value : Number} (wordProper : (Atom.word word).IsProper)
    (numberProper : (number value).IsProper) : word ≠ (number value).text := by
  rintro rfl
  obtain ⟨first, rest, shape, digit⟩ := (isDecimal_number numberProper).starts
  have letter := wordProper.2.2 first (by simp [shape])
  rw [digit] at letter
  cases letter

/-- Words and numbers are told by their texts. -/
theorem eq_of_text (leftProper : left.IsProper) (rightProper : right.IsProper)
    (leftBare : left.IsBare) (rightBare : right.IsBare) (texts : left.text = right.text) :
    left = right := by
  cases left with
  | quoted => exact leftBare.elim
  | word leftText =>
      cases right with
      | quoted => exact rightBare.elim
      | word rightText => exact congrArg word texts
      | number => exact absurd texts (word_ne_number leftProper rightProper)
  | number leftValue =>
      cases right with
      | quoted => exact rightBare.elim
      | word => exact absurd texts.symm (word_ne_number rightProper leftProper)
      | number rightValue =>
          apply congrArg number
          exact Number.literalText_injective leftProper.1 leftProper.2 rightProper.1 rightProper.2 texts

/-- An atom is a word, a number or a quoted text. -/
theorem bare_or_quoted (atom : Atom) : atom.IsBare ∨ ∃ content, atom = quoted content := by
  cases atom with
  | word | number => exact .inl trivial
  | quoted content => exact .inr ⟨content, rfl⟩

/-- Of two texts that start with atoms and go on with delimiters, the atoms are the same if the texts are. -/
theorem text_unique (leftProper : left.IsProper) (rightProper : right.IsProper)
    (leftCloses : Closes leftRest) (rightCloses : Closes rightRest)
    (same : left.text.toList ++ leftRest = right.text.toList ++ rightRest) :
    left = right ∧ leftRest = rightRest := by
  rcases left.bare_or_quoted with leftBare | ⟨leftContent, rfl⟩ <;>
    rcases right.bare_or_quoted with rightBare | ⟨rightContent, rfl⟩
  · obtain ⟨texts, rests⟩ :=
      bare_unique leftProper rightProper leftBare rightBare leftCloses rightCloses same
    exact ⟨eq_of_text leftProper rightProper leftBare rightBare texts, rests⟩
  · exact absurd same (bare_ne_quoted leftProper leftBare)
  · exact absurd same.symm (bare_ne_quoted rightProper rightBare)
  · obtain ⟨rfl, rests⟩ := quoted_unique leftProper rightProper same
    exact ⟨rfl, rests⟩

end Atom

/-- Nested lists of atoms. -/
inductive Shape where
  | atom (value : Atom)
  | list (parts : List Shape)

namespace Shape

mutual

/-- What is written for a shape. -/
def text : Shape → List Char
  | atom value => value.text.toList
  | list parts => '(' :: ((separated parts).drop 1 ++ [')'])

/-- The texts of shapes, with a blank before each. -/
def separated : List Shape → List Char
  | [] => []
  | part :: rest => ' ' :: (part.text ++ separated rest)

end

mutual

/-- A shape all of whose atoms are proper. -/
def IsProper : Shape → Prop
  | atom value => value.IsProper
  | list parts => AreProper parts

def AreProper : List Shape → Prop
  | [] => True
  | part :: rest => part.IsProper ∧ AreProper rest

end

/-- An atom starts with no parenthesis. -/
theorem atom_starts {value : Atom} (proper : value.IsProper) :
    ∃ first rest, value.text.toList = first :: rest ∧ first ∉ ['(', ')'] := by
  obtain ⟨first, rest, shape⟩ := List.exists_cons_of_ne_nil proper.ne_nil
  refine ⟨first, rest, shape, ?_⟩
  rcases value.bare_or_quoted with bare | ⟨content, rfl⟩
  · have outside := proper.characters bare first (by simp [shape])
    simp only [Atom.delimiters, List.mem_cons, List.not_mem_nil, or_false] at outside ⊢
    tauto
  · have quote : first = '\'' := by
      simpa [Atom.text] using (congrArg List.head? shape).symm
    rw [quote]
    decide

/-- A shape does not start with a closing parenthesis. -/
theorem text_starts {shape : Shape} (proper : shape.IsProper) :
    ∃ first rest, shape.text = first :: rest ∧ first ≠ ')' := by
  cases shape with
  | atom value =>
      obtain ⟨first, rest, starts, other⟩ := atom_starts proper
      exact ⟨first, rest, starts, fun closing => other (by simp [closing])⟩
  | list parts => exact ⟨'(', _, rfl, by decide⟩

/-- No atom is written as a list. -/
theorem atom_ne_list {value : Atom} {parts : List Shape} {leftRest rightRest : List Char}
    (proper : value.IsProper) : (atom value).text ++ leftRest ≠ (list parts).text ++ rightRest := by
  intro same
  obtain ⟨first, rest, starts, other⟩ := atom_starts proper
  have opening : first = '(' := by
    simpa [text, starts] using congrArg List.head? same
  exact other (by simp [opening])

/-- What follows a part of a list is a delimiter. -/
theorem closes_separated (parts : List Shape) (rest : List Char) :
    Atom.Closes (separated parts ++ ')' :: rest) := by
  unfold Atom.Closes
  cases parts with
  | nil => simp [separated, Atom.delimiters]
  | cons part parts => simp [separated, Atom.delimiters]

/-- Without the first blank. -/
theorem separated_drop {left right : List Shape} {leftRest rightRest : List Char}
    (leftProper : AreProper left) (rightProper : AreProper right)
    (same : (separated left).drop 1 ++ ')' :: leftRest = (separated right).drop 1 ++ ')' :: rightRest) :
    separated left ++ ')' :: leftRest = separated right ++ ')' :: rightRest := by
  cases left with
  | nil =>
      cases right with
      | nil => exact same
      | cons part right =>
          obtain ⟨first, rest, starts, other⟩ := text_starts rightProper.1
          simp [separated, starts, other.symm] at same
  | cons part left =>
      cases right with
      | nil =>
          obtain ⟨first, rest, starts, other⟩ := text_starts leftProper.1
          simp [separated, starts, other] at same
      | cons => exact congrArg (' ' :: ·) same

mutual

/-- Of two texts that start with shapes and go on with delimiters, the shapes are the same if the texts are. -/
theorem text_unique : ∀ {left right : Shape} {leftRest rightRest : List Char}, left.IsProper →
    right.IsProper → Atom.Closes leftRest → Atom.Closes rightRest →
    left.text ++ leftRest = right.text ++ rightRest → left = right ∧ leftRest = rightRest
  | atom _, atom _, _, _, leftProper, rightProper, leftCloses, rightCloses, same => by
      obtain ⟨rfl, rests⟩ := Atom.text_unique leftProper rightProper leftCloses rightCloses same
      exact ⟨rfl, rests⟩
  | atom _, list _, _, _, leftProper, _, _, _, same => absurd same (atom_ne_list leftProper)
  | list _, atom _, _, _, _, rightProper, _, _, same =>
      absurd same.symm (atom_ne_list rightProper)
  | list left, list right, leftRest, rightRest, leftProper, rightProper, _, _, same => by
      have inside : (separated left).drop 1 ++ ')' :: leftRest =
          (separated right).drop 1 ++ ')' :: rightRest := by
        simpa [text] using same
      obtain ⟨rfl, rests⟩ := separated_unique leftProper rightProper
        (separated_drop leftProper rightProper inside)
      exact ⟨rfl, rests⟩

/-- Of two lists of parts that are closed, the parts are the same if the texts are. -/
theorem separated_unique : ∀ {left right : List Shape} {leftRest rightRest : List Char},
    AreProper left → AreProper right →
    separated left ++ ')' :: leftRest = separated right ++ ')' :: rightRest →
    left = right ∧ leftRest = rightRest
  | [], [], _, _, _, _, same => ⟨rfl, (List.cons.inj same).2⟩
  | [], _ :: _, _, _, _, _, same => by simp [separated] at same
  | _ :: _, [], _, _, _, _, same => by simp [separated] at same
  | leftPart :: left, rightPart :: right, leftRest, rightRest, leftProper, rightProper, same => by
      have tails : leftPart.text ++ (separated left ++ ')' :: leftRest) =
          rightPart.text ++ (separated right ++ ')' :: rightRest) := by
        simpa [separated] using same
      obtain ⟨rfl, rests⟩ := text_unique leftProper.1 rightProper.1 (closes_separated left leftRest)
        (closes_separated right rightRest) tails
      obtain ⟨rfl, ends⟩ := separated_unique leftProper.2 rightProper.2 rests
      exact ⟨rfl, ends⟩

end

/-- Proper shapes are told by their texts. -/
theorem text_injective {left right : Shape} (leftProper : left.IsProper) (rightProper : right.IsProper)
    (same : left.text = right.text) : left = right := by
  have ended : Atom.Closes [] := by simp [Atom.Closes]
  exact (text_unique leftProper rightProper ended ended (by rw [same])).1

end Shape

end OffsideScript
