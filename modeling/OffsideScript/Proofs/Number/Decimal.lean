import OffsideScript.Number.Text
import OffsideScript.Proofs.Token.Spelling
import Mathlib.Algebra.Order.Field.Power
import Mathlib.Algebra.Order.Field.Rat
import Mathlib.Tactic.FieldSimp
import Mathlib.Tactic.NormNum

namespace OffsideScript.Number

open Piece (IsDigits IsDecimal)

/-- The number that a decimal stands for. -/
def Decimal.value (decimal : Decimal) : ℚ :=
  decimal.digits * 10 ^ decimal.exponent

/-- The number that digits with an optional fraction denote. -/
def denoted (text : List Char) : ℚ :=
  let whole := text.takeWhile Char.isDigit
  let fraction := (text.drop whole.length).drop 1
  digitsValue (whole ++ fraction) / 10 ^ fraction.length

/-- Digits alone denote their value. -/
theorem denoted_digits {text : List Char} (digits : IsDigits text) :
    denoted text = digitsValue text := by
  have whole : text.takeWhile Char.isDigit = text := by
    simpa using @Piece.takeWhile_eq _ text [] digits.2 (by simp)
  simp [denoted, whole]

/-- A point divides by a power of ten. -/
theorem denoted_point {whole fraction : List Char} (digits : IsDigits whole) :
    denoted (whole ++ '.' :: fraction) =
      digitsValue (whole ++ fraction) / 10 ^ fraction.length := by
  have before : (whole ++ '.' :: fraction).takeWhile Char.isDigit = whole := by
    apply Piece.takeWhile_eq digits.2
    rintro character ⟨⟩
    decide
  simp [denoted, before]

/-- The digits of a number are digits. -/
theorem isDigits_toDigits (number : Nat) : IsDigits (Nat.toDigits 10 number) :=
  ⟨Nat.toDigits_ne_nil, fun _ member => Nat.isDigit_of_mem_toDigits (by decide) (by decide) member⟩

/-- Digits followed by zeros are digits. -/
theorem isDigits_append_zeros {digits : List Char} (isDigits : IsDigits digits) (count : Nat) :
    IsDigits (digits ++ List.replicate count '0') := by
  refine ⟨by simp [isDigits.1], ?_⟩
  intro character member
  rcases List.mem_append.mp member with digit | zero
  · exact isDigits.2 character digit
  · rw [List.eq_of_mem_replicate zero]
    decide

/-- Zeros behind the digits multiply by a power of ten. -/
theorem digitsValue_append_zeros (number count : Nat) :
    digitsValue (Nat.toDigits 10 number ++ List.replicate count '0') = number * 10 ^ count := by
  change Nat.ofDigitChars 10 _ 0 = _
  rw [Nat.ofDigitChars_append, Nat.ofDigitChars_ten_toDigits, Nat.ofDigitChars_replicate_zero,
    Nat.mul_comm]

/-- Zeros before the digits change nothing. -/
theorem digitsValue_zeros_append (number count : Nat) :
    digitsValue (List.replicate count '0' ++ Nat.toDigits 10 number) = number := by
  change Nat.ofDigitChars 10 _ 0 = _
  rw [Nat.ofDigitChars_append, Nat.ofDigitChars_replicate_zero, Nat.mul_zero,
    Nat.ofDigitChars_ten_toDigits]

/-- Digits behind zeros are digits. -/
theorem isDigits_zeros_append {digits : List Char} (isDigits : IsDigits digits) (count : Nat) :
    IsDigits (List.replicate count '0' ++ digits) := by
  refine ⟨by simp [isDigits.1], ?_⟩
  intro character member
  exact (isDigits_append_zeros isDigits count).2 character (by simpa [or_comm] using member)

/-- Digits with a point among them denote the decimal with that many places. -/
theorem denoted_places {whole fraction : List Char} (before : IsDigits whole)
    (after : IsDigits fraction) {decimal : Decimal}
    (digits : digitsValue (whole ++ fraction) = decimal.digits)
    (places : decimal.exponent = -(fraction.length : Int)) :
    IsDecimal (whole ++ '.' :: fraction) ∧ denoted (whole ++ '.' :: fraction) = decimal.value := by
  refine ⟨.inr ⟨whole, fraction, rfl, before, after⟩, ?_⟩
  rw [denoted_point before, digits, Decimal.value, places, zpow_neg, zpow_natCast, div_eq_mul_inv]

/-- Some of the digits are digits. -/
theorem isDigits_of_sublist {digits some : List Char} (isDigits : IsDigits digits)
    (sublist : some.Sublist digits) (nonempty : some ≠ []) : IsDigits some :=
  ⟨nonempty, fun character member => isDigits.2 character (sublist.subset member)⟩

/-- What is written is a decimal text, and it denotes the decimal. -/
theorem denoted_positional (decimal : Decimal) :
    IsDecimal decimal.positional.toList ∧ denoted decimal.positional.toList = decimal.value := by
  have isDigits := isDigits_toDigits decimal.digits
  have value := digitsValue_zeros_append decimal.digits
  unfold Decimal.positional
  dsimp only
  split
  · next shift exponent =>
      have all := isDigits_append_zeros isDigits shift
      rw [String.toList_append, zeros, String.toList_ofList, String.toList_ofList,
        denoted_digits all, digitsValue_append_zeros, Decimal.value, exponent]
      exact ⟨.inl all, by simp⟩
  · next shift exponent =>
      generalize Nat.toDigits 10 decimal.digits = digits at isDigits value
      split
      · next inside =>
          have before : IsDigits (digits.take (digits.length - (shift + 1))) := by
            apply isDigits_of_sublist isDigits (List.take_sublist _ _)
            rw [Ne, List.take_eq_nil_iff]
            exact not_or_intro (by omega) isDigits.1
          have after : IsDigits (digits.drop (digits.length - (shift + 1))) := by
            apply isDigits_of_sublist isDigits (List.drop_sublist _ _)
            rw [Ne, List.drop_eq_nil_iff]
            omega
          have places : decimal.exponent =
              -((digits.drop (digits.length - (shift + 1))).length : Int) := by
            rw [exponent, List.length_drop]
            omega
          simpa using denoted_places before after
            (by rw [List.take_append_drop]; exact value 0) places
      · next outside =>
          have before : IsDigits ['0'] := ⟨by simp, by simp⟩
          have after := isDigits_zeros_append isDigits (shift + 1 - digits.length)
          have places : decimal.exponent =
              -((List.replicate (shift + 1 - digits.length) '0' ++ digits).length : Int) := by
            rw [exponent, List.length_append, List.length_replicate]
            omega
          simpa [zeros] using denoted_places before after (value (shift + 1 - digits.length + 1)) places

end OffsideScript.Number
