/-
This file shows that the shortest decimal of a double is among the numbers that round to this double, and that no
number rounds to two doubles. So different doubles have different texts.
-/

import OffsideScript.Proofs.Number.Decimal
import OffsideScript.Proofs.Number.Pattern
import Mathlib.Tactic.Linarith
import Mathlib.Tactic.Positivity
import Mathlib.Tactic.Ring

namespace OffsideScript.Number

namespace Parts

/-- The mantissa has at most 53 bits, and fewer only at the least exponent. -/
structure IsCanonical (number : Parts) : Prop where
  bounded : number.mantissa < 2 ^ 53
  least : -1074 ≤ number.exponent
  full : number.exponent = -1074 ∨ 2 ^ 52 ≤ number.mantissa

/-- A quarter of the gap above a double. -/
def quarter (number : Parts) : ℚ :=
  2 ^ (number.exponent - 2)

/-- Half of the gap below a double, in quarters of the gap above it. -/
def below (number : Parts) : Nat :=
  if number.mantissa = 2 ^ 52 ∧ number.exponent ≠ -1074 then 1 else 2

/-- The double as a rational number. -/
def middle (number : Parts) : ℚ :=
  4 * number.mantissa * number.quarter

/-- Half way to the double below. -/
def lower (number : Parts) : ℚ :=
  (4 * number.mantissa - number.below) * number.quarter

/-- Half way to the double above. -/
def upper (number : Parts) : ℚ :=
  (4 * number.mantissa + 2) * number.quarter

/-- A number rounds to the nearest double, and from half way to the one with the even mantissa. -/
def Covers (number : Parts) (point : ℚ) : Prop :=
  if number.mantissa % 2 = 0 then number.lower ≤ point ∧ point ≤ number.upper
  else number.lower < point ∧ point < number.upper

variable {number left right : Parts} {point : ℚ}

/-- The gap above a double is positive. -/
theorem quarter_pos (number : Parts) : 0 < number.quarter :=
  zpow_pos (by norm_num) _

/-- There is a gap below a double. -/
theorem below_pos (number : Parts) : 1 ≤ number.below := by
  unfold below
  split <;> omega

/-- The gap below a double is not longer than the one above it. -/
theorem below_le (number : Parts) : number.below ≤ 2 := by
  unfold below
  split <;> omega

/-- A number that rounds to a double is not beyond half way. -/
theorem Covers.le (covers : number.Covers point) : number.lower ≤ point ∧ point ≤ number.upper := by
  unfold Covers at covers
  split at covers
  · exact covers
  · exact ⟨covers.1.le, covers.2.le⟩

/-- A number that rounds to an odd mantissa is not half way. -/
theorem Covers.lt (covers : number.Covers point) (odd : number.mantissa % 2 = 1) :
    number.lower < point ∧ point < number.upper := by
  rwa [Covers, if_neg (by omega)] at covers

/-- A number that rounds to a positive double is positive. -/
theorem Covers.pos (covers : number.Covers point) (positive : 0 < number.mantissa) : 0 < point := by
  have mantissa : (1 : ℚ) ≤ number.mantissa := by exact_mod_cast positive
  have below : (number.below : ℚ) ≤ 2 := by exact_mod_cast number.below_le
  have lower : 0 < number.lower := mul_pos (by linarith) number.quarter_pos
  exact lower.trans_le covers.le.1

/-- The order of doubles that are not negative. -/
def Before (left right : Parts) : Prop :=
  left.exponent < right.exponent ∨
    left.exponent = right.exponent ∧ left.mantissa < right.mantissa

/-- The gap above a larger double is a multiple of the gap above a smaller one. -/
theorem Before.quarter_eq (before : left.Before right) :
    right.quarter = 2 ^ (right.exponent - left.exponent).toNat * left.quarter := by
  have later : 0 ≤ right.exponent - left.exponent := by
    unfold Before at before
    omega
  rw [quarter, quarter, ← zpow_natCast, Int.toNat_of_nonneg later, ← zpow_add₀ (by norm_num)]
  congr 1
  omega

/-- In quarters of the gap above the first double, the number half way above it is at most the one half way
below the second. Where both are the same number, a mantissa is odd. Only a power of two has the shorter gap
below it, and then its mantissa is the least. -/
theorem Before.steps (before : left.Before right) (leftCanonical : left.IsCanonical)
    (rightCanonical : right.IsCanonical) :
    (4 * left.mantissa + 2 : Int) ≤
        (4 * right.mantissa - right.below) * 2 ^ (right.exponent - left.exponent).toNat ∧
      (left.mantissa % 2 = 0 → right.mantissa % 2 = 0 → (4 * left.mantissa + 2 : Int) <
        (4 * right.mantissa - right.below) * 2 ^ (right.exponent - left.exponent).toNat) := by
  have bounded := leftCanonical.bounded
  rcases before with lower | ⟨same, less⟩
  · obtain ⟨extra, gap⟩ : ∃ extra, (right.exponent - left.exponent).toNat = extra + 1 :=
      ⟨(right.exponent - left.exponent).toNat - 1, by omega⟩
    have later : right.exponent ≠ -1074 := by
      have least := leftCanonical.least
      omega
    have normal := rightCanonical.full.resolve_left later
    have start : (2 ^ 54 - 1 : Int) ≤ 4 * right.mantissa - right.below := by
      unfold below
      split <;> omega
    have factor : (1 : Int) ≤ 2 ^ extra := one_le_pow₀ (by norm_num)
    have double : (2 ^ 55 - 2 : Int) ≤ (4 * right.mantissa - right.below) * 2 ^ (extra + 1) := by
      rw [pow_succ 2 extra]
      nlinarith
    rw [gap]
    constructor
    · omega
    · intro leftEven _
      omega
  · have below := right.below_le
    rw [same, Int.sub_self, Int.toNat_zero, pow_zero, mul_one]
    constructor
    · omega
    · intro leftEven rightEven
      omega

/-- No number rounds to two doubles. -/
theorem Before.not_covers (before : left.Before right) (leftCanonical : left.IsCanonical)
    (rightCanonical : right.IsCanonical) (covers : left.Covers point) : ¬right.Covers point := by
  intro coversRight
  have positive := left.quarter_pos
  obtain ⟨most, strict⟩ := before.steps leftCanonical rightCanonical
  have lower : right.lower = ((4 * right.mantissa - right.below) *
      2 ^ (right.exponent - left.exponent).toNat : Int) * left.quarter := by
    rw [Parts.lower, before.quarter_eq]
    push_cast
    ring
  have upper : left.upper = ((4 * left.mantissa + 2 : Int) : ℚ) * left.quarter := by
    rw [Parts.upper]
    push_cast
    rfl
  have ordered : left.upper ≤ right.lower := by
    rw [upper, lower]
    exact mul_le_mul_of_nonneg_right (by exact_mod_cast most) positive.le
  rcases Nat.mod_two_eq_zero_or_one left.mantissa with leftEven | leftOdd
  · rcases Nat.mod_two_eq_zero_or_one right.mantissa with rightEven | rightOdd
    · have apart : left.upper < right.lower := by
        rw [upper, lower]
        exact mul_lt_mul_of_pos_right (by exact_mod_cast strict leftEven rightEven) positive
      linarith [covers.le.2, coversRight.le.1]
    · linarith [covers.le.2, (coversRight.lt rightOdd).1]
  · linarith [(covers.lt leftOdd).2, coversRight.le.1]

/-- A number rounds to one double only. -/
theorem Covers.unique (leftCanonical : left.IsCanonical) (rightCanonical : right.IsCanonical)
    (covers : left.Covers point) (coversRight : right.Covers point) :
    left.mantissa = right.mantissa ∧ left.exponent = right.exponent := by
  have first : ¬left.Before right := fun before =>
    before.not_covers leftCanonical rightCanonical covers coversRight
  have second : ¬right.Before left := fun before =>
    before.not_covers rightCanonical leftCanonical coversRight covers
  unfold Before at first second
  omega

end Parts

/-- A power with an exponent of any sign is a quotient of two natural powers. -/
theorem zpow_eq_div (base : Nat) (exponent : Int) :
    (base : ℚ) ^ exponent =
      (Nat.pow base exponent.toNat : Nat) / (Nat.pow base (-exponent).toNat : Nat) := by
  change _ = ((base ^ exponent.toNat : Nat) : ℚ) / (base ^ (-exponent).toNat : Nat)
  obtain ⟨count, rfl | rfl⟩ := exponent.eq_nat_or_neg <;> simp

section Grid

variable {denominator : Nat} (positive : 0 < denominator) (exponent : Int) (bound candidate : Nat)

include positive

/-- A bound and a point of a decimal grid, without denominators. -/
theorem grid_scaled : ∃ factor : ℚ, 0 < factor ∧
    ((bound * Nat.pow 10 (-exponent).toNat : Nat) : ℚ) = bound / denominator * factor ∧
    ((candidate * (denominator * Nat.pow 10 exponent.toNat) : Nat) : ℚ) =
      candidate * 10 ^ exponent * factor := by
  have power := zpow_eq_div 10 exponent
  have scalePos : 0 < Nat.pow 10 (-exponent).toNat := Nat.pow_pos (by decide)
  generalize Nat.pow 10 (-exponent).toNat = scale, Nat.pow 10 exponent.toNat = unit at *
  rw [Nat.cast_ofNat] at power
  refine ⟨denominator * scale, by positivity, ?_, ?_⟩
  · field_simp
    push_cast
    rfl
  · rw [power]
    field_simp
    push_cast
    ring

/-- A bound lies below a point of a decimal grid. -/
theorem le_grid_iff : bound * Nat.pow 10 (-exponent).toNat ≤
      candidate * (denominator * Nat.pow 10 exponent.toNat) ↔
    (bound / denominator : ℚ) ≤ candidate * 10 ^ exponent := by
  obtain ⟨factor, factorPos, boundEq, pointEq⟩ := grid_scaled positive exponent bound candidate
  rw [← @Nat.cast_le ℚ, boundEq, pointEq, mul_le_mul_iff_left₀ factorPos]

/-- A point of a decimal grid lies below a bound. -/
theorem grid_le_iff : candidate * (denominator * Nat.pow 10 exponent.toNat) ≤
      bound * Nat.pow 10 (-exponent).toNat ↔
    candidate * 10 ^ exponent ≤ (bound / denominator : ℚ) := by
  obtain ⟨factor, factorPos, boundEq, pointEq⟩ := grid_scaled positive exponent bound candidate
  rw [← @Nat.cast_le ℚ, boundEq, pointEq, mul_le_mul_iff_left₀ factorPos]

end Grid

/-- An interval contains a point of a decimal grid if the point lies between its bounds. -/
theorem Interval.contains_iff {interval : Interval} (positive : 0 < interval.denominator)
    (exponent : Int) (candidate : Nat) :
    interval.contains (interval.denominator * Nat.pow 10 exponent.toNat)
        (Nat.pow 10 (-exponent).toNat) candidate = true ↔
      if interval.closed then
        (interval.low / interval.denominator : ℚ) ≤ candidate * 10 ^ exponent ∧
          candidate * 10 ^ exponent ≤ (interval.high / interval.denominator : ℚ)
      else
        (interval.low / interval.denominator : ℚ) < candidate * 10 ^ exponent ∧
          candidate * 10 ^ exponent < (interval.high / interval.denominator : ℚ) := by
  unfold contains
  dsimp only
  split
  · simp only [Bool.and_eq_true, decide_eq_true_eq]
    rw [le_grid_iff positive, grid_le_iff positive]
  · simp only [Bool.and_eq_true, decide_eq_true_eq]
    rw [← Nat.not_le, grid_le_iff positive, not_le, ← Nat.not_le, le_grid_iff positive, not_le]

namespace Parts

/-- The bounds of a double have a denominator. -/
theorem interval_denominator_pos (number : Parts) : 0 < number.interval.denominator :=
  Nat.pow_pos (by decide)

/-- Quarters of the gap are counted without a denominator. -/
theorem scaled_quarter (number : Parts) (count : Nat) :
    ((count * Nat.pow 2 (number.exponent - 2).toNat : Nat) : ℚ) / number.interval.denominator =
      count * number.quarter := by
  have power := zpow_eq_div 2 (number.exponent - 2)
  rw [neg_sub, Nat.cast_ofNat] at power
  rw [quarter, power, Nat.cast_mul, mul_div_assoc]
  rfl

/-- The lower bound of the interval is half way to the double below. -/
theorem interval_low {number : Parts} (positive : 0 < number.mantissa) :
    (number.interval.low / number.interval.denominator : ℚ) = number.lower := by
  have below := number.below_le
  refine (number.scaled_quarter (4 * number.mantissa - number.below)).trans ?_
  rw [lower, Nat.cast_sub (by omega)]
  push_cast
  rfl

/-- The value of the interval is the double. -/
theorem interval_value (number : Parts) :
    (number.interval.value / number.interval.denominator : ℚ) = number.middle := by
  refine (number.scaled_quarter (4 * number.mantissa)).trans ?_
  rw [middle]
  push_cast
  rfl

/-- The upper bound of the interval is half way to the double above. -/
theorem interval_high (number : Parts) :
    (number.interval.high / number.interval.denominator : ℚ) = number.upper := by
  refine (number.scaled_quarter (4 * number.mantissa + 2)).trans ?_
  rw [upper]
  push_cast
  rfl

/-- The interval contains the points of a grid that round to the double. -/
theorem interval_contains_iff {number : Parts} (positive : 0 < number.mantissa) (exponent : Int)
    (candidate : Nat) :
    number.interval.contains (number.interval.denominator * Nat.pow 10 exponent.toNat)
        (Nat.pow 10 (-exponent).toNat) candidate = true ↔
      number.Covers (candidate * 10 ^ exponent) := by
  rw [Interval.contains_iff number.interval_denominator_pos, interval_low positive, interval_high,
    Covers]
  simp [interval]

/-- What is found on a grid rounds to the double. -/
theorem onGrid?_covers {number : Parts} (positive : 0 < number.mantissa) {exponent : Int}
    {digits : Nat} (found : number.interval.onGrid? exponent = some digits) :
    number.Covers (digits * 10 ^ exponent) := by
  rw [← interval_contains_iff positive]
  unfold Interval.onGrid? at found
  dsimp only at found
  split at found <;> cases found
  · split <;> assumption
  all_goals assumption

end Parts

/-- A number is less than ten to the number of its digits. -/
theorem lt_pow_decimalLength (number : Nat) : number < 10 ^ decimalLength number :=
  (Nat.length_toDigits_le_iff (by decide) Nat.length_toDigits_pos).mp (Nat.le_refl _)

/-- A number is at least the power of ten with as many digits. -/
theorem pow_decimalLength_le {number : Nat} (positive : 0 < number) :
    10 ^ (decimalLength number - 1) ≤ number := by
  by_contra above
  by_cases single : decimalLength number - 1 = 0
  · rw [single] at above
    omega
  · have shorter := (Nat.length_toDigits_le_iff (by decide) (Nat.pos_of_ne_zero single)).mpr
      (Nat.lt_of_not_le above)
    change decimalLength number ≤ _ at shorter
    omega

/-- The decimal exponent of a value is not too large. -/
theorem Interval.pow_decimalExponent_le {interval : Interval} (denominator : 0 < interval.denominator)
    (value : 0 < interval.value) :
    (10 : ℚ) ^ (interval.decimalExponent - 1) ≤ interval.value / interval.denominator := by
  unfold decimalExponent
  split
  · next large =>
      have least := pow_decimalLength_le (Nat.div_pos large denominator)
      have length : 0 < decimalLength (interval.value / interval.denominator) :=
        Nat.length_toDigits_pos
      rw [Nat.le_div_iff_mul_le denominator] at least
      rw [← Nat.cast_pred length, zpow_natCast, le_div_iff₀ (by exact_mod_cast denominator)]
      exact_mod_cast least
  · next small =>
      have most := lt_pow_decimalLength ((interval.denominator - 1) / interval.value)
      rw [Nat.div_lt_iff_lt_mul value] at most
      rw [sub_sub_cancel_left, zpow_neg, zpow_natCast, inv_eq_one_div,
        div_le_div_iff₀ (by positivity) (by exact_mod_cast denominator), one_mul, mul_comm]
      exact_mod_cast Nat.le_of_pred_lt most

/-- Zeros at the end of a decimal do not change its value. -/
theorem Decimal.value_normal (decimal : Decimal) : decimal.normal.value = decimal.value := by
  unfold normal
  split
  · next ten =>
      rw [value, value, ten, zpow_add₀ (by norm_num)]
      norm_num
      ring
  · rfl

namespace Parts

variable {number : Parts}

/-- Rounding down on a grid that is finer than half of the gap below a double leaves a number that rounds to it. -/
theorem covers_floor {exponent : Int} {digits : Nat}
    (floor : number.interval.value * Nat.pow 10 (-exponent).toNat /
      (number.interval.denominator * Nat.pow 10 exponent.toNat) = digits)
    (fine : 10 ^ exponent ≤ number.middle - number.lower) :
    number.Covers (digits * 10 ^ exponent) := by
  have positive := number.interval_denominator_pos
  have unit : 0 < number.interval.denominator * Nat.pow 10 exponent.toNat :=
    Nat.mul_pos positive (Nat.pow_pos (by decide))
  have below := (Nat.le_div_iff_mul_le unit).mp floor.ge
  have above := (Nat.div_lt_iff_lt_mul unit).mp (floor.trans_lt (Nat.lt_add_one digits))
  rw [grid_le_iff positive, interval_value] at below
  rw [← Nat.not_le, grid_le_iff positive, interval_value, not_le] at above
  have lower : number.lower < digits * 10 ^ exponent := by
    push_cast at above
    linarith
  have upper : digits * 10 ^ exponent < number.upper := by
    have quarter := number.quarter_pos
    rw [middle] at below
    rw [Parts.upper]
    linarith
  unfold Covers
  split
  · exact ⟨lower.le, upper.le⟩
  · exact ⟨lower, upper⟩

/-- Eighteen digits are more than a double can need. -/
theorem fine_eighteen (canonical : number.IsCanonical) (positive : 0 < number.mantissa) :
    10 ^ (number.interval.decimalExponent - 18) ≤ number.middle - number.lower := by
  have value : 0 < number.interval.value :=
    Nat.mul_pos (Nat.mul_pos (by decide) positive) (Nat.pow_pos (by decide))
  have leading := Interval.pow_decimalExponent_le number.interval_denominator_pos value
  have shift : number.interval.decimalExponent - 1 = number.interval.decimalExponent - 18 + 17 := by
    ring
  rw [interval_value, shift, zpow_add₀ (by norm_num), middle] at leading
  have bounded : (number.mantissa : ℚ) ≤ 2 ^ 53 := by exact_mod_cast canonical.bounded.le
  have below : (1 : ℚ) ≤ number.below := by exact_mod_cast number.below_pos
  have quarter := number.quarter_pos
  rw [middle, lower]
  nlinarith

/-- The search finds a decimal that rounds to the double, by induction on the places that are left. -/
theorem search_covers (canonical : number.IsCanonical) (positive : 0 < number.mantissa)
    (attempts places : Nat) (total : places + attempts = 18) :
    number.Covers (number.interval.search number.interval.decimalExponent attempts places).value := by
  induction attempts generalizing places with
  | zero =>
      rw [Nat.add_zero] at total
      rw [total]
      exact covers_floor rfl (fine_eighteen canonical positive)
  | succ attempts ih =>
      unfold Interval.search
      split
      · next digits found => exact onGrid?_covers positive found
      · exact ih (places + 1) (by omega)

/-- The shortest decimal of a double rounds to this double. -/
theorem shortest_covers (canonical : number.IsCanonical) (positive : 0 < number.mantissa) :
    number.Covers number.shortest.value := by
  unfold shortest
  rw [Decimal.value_normal]
  exact search_covers canonical positive 17 1 rfl

end Parts

section Text

variable {number left right : Number}

/-- The fraction has 52 bits. -/
theorem fractionBits_lt (number : Number) : fractionBits number < 2 ^ 52 :=
  Nat.mod_lt _ (by decide)

/-- The bits of a double are its sign, its exponent and its fraction. -/
theorem toNat_bits (number : Number) : number.bits.toNat =
    (if isNegative number then 2 ^ 63 else 0) + biasedExponent number * 2 ^ 52 +
      fractionBits number := by
  have size : number.bits.toNat < 2 ^ 64 := number.bits.toBitVec.isLt
  change _ = (if (number.bits.toNat / 2 ^ 63 % 2 == 1) = true then 2 ^ 63 else 0) +
    number.bits.toNat / 2 ^ 52 % 2 ^ 11 * 2 ^ 52 + number.bits.toNat % 2 ^ 52
  split <;> rw [beq_iff_eq] at * <;> omega

/-- The parts of a number are canonical. -/
theorem parts_isCanonical (number : Number) : (parts number).IsCanonical := by
  have fraction := fractionBits_lt number
  have implicit : Nat.pow 2 52 = 2 ^ 52 := rfl
  unfold parts
  split <;> constructor <;> dsimp only <;> omega

/-- A double is its sign, its mantissa and its exponent. -/
theorem eq_of_parts (sign : isNegative left = isNegative right)
    (mantissa : (parts left).mantissa = (parts right).mantissa)
    (exponent : (parts left).exponent = (parts right).exponent) : left = right := by
  have leftFraction := fractionBits_lt left
  have rightFraction := fractionBits_lt right
  have implicit : Nat.pow 2 52 = 2 ^ 52 := rfl
  have fields : biasedExponent left = biasedExponent right ∧
      fractionBits left = fractionBits right := by
    unfold parts at mantissa exponent
    by_cases leftLeast : biasedExponent left = 0 <;>
      by_cases rightLeast : biasedExponent right = 0 <;>
      simp only [leftLeast, rightLeast, if_true, if_false] at mantissa exponent <;>
      omega
  apply Number.ext
  apply UInt64.toNat_inj.mp
  rw [toNat_bits, toNat_bits, sign, fields.1, fields.2]

/-- All bits of a zero but its sign are zero. -/
theorem isZero_eq_true_iff (number : Number) :
    isZero number = true ↔ biasedExponent number = 0 ∧ fractionBits number = 0 := by
  change (number.bits.toNat % 2 ^ 63 == 0) = true ↔
    number.bits.toNat / 2 ^ 52 % 2 ^ 11 = 0 ∧ number.bits.toNat % 2 ^ 52 = 0
  rw [beq_iff_eq]
  omega

/-- A number that is no zero has a mantissa. -/
theorem mantissa_pos (nonzero : ¬isZero number = true) : 0 < (parts number).mantissa := by
  rw [isZero_eq_true_iff] at nonzero
  unfold parts
  split
  · dsimp only
    omega
  · exact Nat.add_pos_right _ (Nat.pow_pos (by decide))

/-- A finite number without a sign is written as its magnitude. -/
theorem literalText_eq_magnitudeText (finite : isFinite number = true)
    (unsigned : isNegative number = false) : literalText number = magnitudeText number := by
  have isNumber : isNaN number = false := by
    simp_all [isFinite, isNaN]
  simp [literalText, isNumber, finite, signText, unsigned]

/-- A magnitude is written with digits and at most one point. -/
theorem isDecimal_magnitudeText (number : Number) :
    Piece.IsDecimal (magnitudeText number).toList := by
  unfold magnitudeText
  split
  · exact .inl ⟨by simp, by simp⟩
  · exact (denoted_positional _).1

/-- The text of a zero denotes zero. -/
theorem denoted_zero (zero : isZero number = true) : denoted (magnitudeText number).toList = 0 := by
  have digits : Piece.IsDigits "0".toList := ⟨by simp, by simp⟩
  rw [magnitudeText, if_pos zero, denoted_digits digits]
  rfl

/-- The text of a double that is no zero denotes a number that rounds to the double. -/
theorem covers_denoted (nonzero : ¬isZero number = true) :
    (parts number).Covers (denoted (magnitudeText number).toList) := by
  rw [magnitudeText, if_neg nonzero, (denoted_positional _).2]
  exact Parts.shortest_covers (parts_isCanonical number) (mantissa_pos nonzero)

/-- The text of a number that is no zero denotes a positive number. -/
theorem denoted_pos (nonzero : ¬isZero number = true) :
    0 < denoted (magnitudeText number).toList :=
  (covers_denoted nonzero).pos (mantissa_pos nonzero)

/-- Different doubles that are finite and not negative have different texts. -/
theorem literalText_injective (leftFinite : isFinite left = true)
    (leftUnsigned : isNegative left = false) (rightFinite : isFinite right = true)
    (rightUnsigned : isNegative right = false) (same : literalText left = literalText right) :
    left = right := by
  rw [literalText_eq_magnitudeText leftFinite leftUnsigned,
    literalText_eq_magnitudeText rightFinite rightUnsigned] at same
  by_cases leftZero : isZero left = true <;> by_cases rightZero : isZero right = true
  · rw [isZero_eq_true_iff] at leftZero rightZero
    apply Number.ext
    apply UInt64.toNat_inj.mp
    rw [toNat_bits, toNat_bits, leftUnsigned, rightUnsigned, leftZero.1, leftZero.2, rightZero.1,
      rightZero.2]
  · have positive := denoted_pos rightZero
    rw [← same, denoted_zero leftZero] at positive
    exact absurd positive (lt_irrefl 0)
  · have positive := denoted_pos leftZero
    rw [same, denoted_zero rightZero] at positive
    exact absurd positive (lt_irrefl 0)
  · have covers := covers_denoted leftZero
    rw [same] at covers
    obtain ⟨mantissa, exponent⟩ := covers.unique (parts_isCanonical left) (parts_isCanonical right)
      (covers_denoted rightZero)
    exact eq_of_parts (leftUnsigned.trans rightUnsigned.symm) mantissa exponent

end Text

end OffsideScript.Number
