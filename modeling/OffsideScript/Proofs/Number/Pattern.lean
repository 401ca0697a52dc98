import OffsideScript.Number.Bits
import Mathlib.Algebra.Group.Nat.Defs

namespace OffsideScript.Number

open Float.Model Float.Model.UnpackedFloat

/-- The bits of a NaN, whatever its sign and its payload are. -/
def IsNaNPattern (bits : UInt64) : Prop :=
  bits.toNat / Nat.pow 2 52 % Nat.pow 2 11 = 2047 ∧ bits.toNat % Nat.pow 2 52 ≠ 0

/-- The bits of a zero of either sign. -/
def IsZeroPattern (bits : UInt64) : Prop :=
  bits.toNat % Nat.pow 2 63 = 0

instance (bits : UInt64) : Decidable (IsNaNPattern bits) :=
  inferInstanceAs (Decidable (_ ∧ _))

instance (bits : UInt64) : Decidable (IsZeroPattern bits) :=
  inferInstanceAs (Decidable (_ = _))

section Fields

variable (bits : BitVec Format.binary64.numBits)

/-- The sign is the highest bit. -/
theorem toNat_unpackSign : (unpackSign bits).toNat = bits.toNat / 2 ^ 63 := by
  have size : bits.toNat < 2 ^ 64 := bits.isLt
  change (bits.toNat >>> 63) % 2 = _
  rw [Nat.shiftRight_eq_div_pow, Nat.mod_eq_of_lt (by omega)]

/-- The exponent is the eleven bits below the sign. -/
theorem toNat_unpackExponent : (unpackExponent bits).toNat = bits.toNat / 2 ^ 52 % 2 ^ 11 := by
  change (bits.toNat >>> 52) % 2 ^ 11 = _
  rw [Nat.shiftRight_eq_div_pow]

/-- The fraction is the lowest 52 bits. -/
theorem toNat_unpackMantissa : (unpackMantissa bits).toNat = bits.toNat % 2 ^ 52 := rfl

end Fields

/-- The fields of a pattern have their places. -/
theorem toNat_packComponents (sign : Sign) (exponent : BitVec 11) (mantissa : BitVec 52) :
    (packComponents .binary64 sign exponent mantissa).toNat =
      sign.toBitVec.toNat * 2 ^ 63 + exponent.toNat * 2 ^ 52 + mantissa.toNat := by
  change ((sign.toBitVec ++ exponent) ++ mantissa).toNat = _
  rw [BitVec.toNat_append, BitVec.toNat_append, ← Nat.shiftLeft_add_eq_or_of_lt mantissa.isLt,
    ← Nat.shiftLeft_add_eq_or_of_lt exponent.isLt, Nat.shiftLeft_eq, Nat.shiftLeft_eq]
  omega

/-- A sign and its bit determine each other. -/
theorem toBitVec_ofBitVec (bit : BitVec 1) : (Sign.ofBitVec bit).toBitVec = bit := by
  revert bit
  decide

/-- The fields of a pattern, put together again. -/
theorem packComponents_unpack (bits : BitVec Format.binary64.numBits) :
    packComponents .binary64 (Sign.ofBitVec (unpackSign bits)) (unpackExponent bits)
      (unpackMantissa bits) = bits := by
  have size : bits.toNat < 2 ^ 64 := bits.isLt
  apply BitVec.eq_of_toNat_eq
  rw [toNat_packComponents, toBitVec_ofBitVec, toNat_unpackSign, toNat_unpackExponent, toNat_unpackMantissa]
  omega

/-- A normal number is packed without its leading bit. -/
theorem pack_normal {sign : Sign} {mantissa exponent : Nat} (positive : 0 < mantissa)
    (least : 2 ^ 52 ≤ mantissa) (most : mantissa < 2 ^ 53) (finite : exponent < 2047) :
    UnpackedFloat.pack .binary64 (.finite sign mantissa (exponent - 1075) positive) =
      packComponents .binary64 sign (BitVec.ofNat 11 exponent) (BitVec.ofNat 52 mantissa) := by
  have biased : ((exponent : Int) - 1075 + (1023 : Nat) + (52 : Nat)).toNat = exponent := by omega
  have length : mantissa.log2 = 52 := (Nat.log2_eq_iff (by omega)).mpr ⟨least, most⟩
  unfold UnpackedFloat.pack
  change (if 2048 ≤ ((exponent : Int) - 1075 + (1023 : Nat) + (52 : Nat)).toNat + 1 then _
    else if mantissa.log2 + 1 = 53 then
      packComponents .binary64 sign
        (BitVec.ofNat 11 ((exponent : Int) - 1075 + (1023 : Nat) + (52 : Nat)).toNat)
        (BitVec.ofNat 52 mantissa)
    else _) = _
  rw [biased, length, if_neg (by omega), if_pos rfl]

/-- A number below the normal ones is packed with the least exponent. -/
theorem pack_subnormal {sign : Sign} {mantissa : Nat} (positive : 0 < mantissa)
    (most : mantissa < 2 ^ 52) :
    UnpackedFloat.pack .binary64 (.finite sign mantissa (-1074) positive) =
      packComponents .binary64 sign 0#11 (BitVec.ofNat 52 mantissa) := by
  have length : mantissa.log2 < 52 := (Nat.log2_lt (by omega)).mpr most
  unfold UnpackedFloat.pack
  change (if 2048 ≤ ((-1074 : Int) + (1023 : Nat) + (52 : Nat)).toNat + 1 then _
    else if mantissa.log2 + 1 = 53 then _ else _) = _
  rw [if_neg (by omega), if_neg (by omega)]

/-- What is unpacked is packed to the same bits, unless it is a NaN. -/
theorem pack_unpack_of_ne_nan {bits : BitVec Format.binary64.numBits}
    (number : unpackExponent bits = -1#_ → unpackMantissa bits = 0#_) :
    UnpackedFloat.pack .binary64 (UnpackedFloat.unpack .binary64 bits) = bits := by
  have whole := packComponents_unpack bits
  have small : (unpackMantissa bits).toNat < 2 ^ 52 := (unpackMantissa bits).isLt
  have range : (unpackExponent bits).toNat < 2 ^ 11 := (unpackExponent bits).isLt
  unfold UnpackedFloat.unpack
  dsimp only
  by_cases full : unpackExponent bits = -1#_
  · rw [if_pos full, if_pos (number full)]
    rw [full, number full] at whole
    exact whole
  rw [if_neg full]
  by_cases empty : unpackExponent bits = 0#_
  · rw [if_pos empty]
    by_cases zero : unpackMantissa bits = 0#_
    · rw [dif_pos zero]
      rw [empty, zero] at whole
      exact whole
    · rw [dif_neg zero, empty]
      refine (pack_subnormal _ small).trans ?_
      rw [empty] at whole
      simpa using whole
  · have mantissa : (1#1 ++ unpackMantissa bits).toNat = 2 ^ 52 + (unpackMantissa bits).toNat := by
      rw [BitVec.toNat_append, ← Nat.shiftLeft_add_eq_or_of_lt (unpackMantissa bits).isLt]
      rfl
    have finite : (unpackExponent bits).toNat < 2047 := by
      have notFull : (unpackExponent bits).toNat ≠ 2047 :=
        fun all => full (BitVec.eq_of_toNat_eq all)
      omega
    rw [if_neg empty]
    refine (pack_normal _ (by omega) (by omega) finite).trans ?_
    rw [mantissa, BitVec.ofNat_add, BitVec.ofNat_toNat, BitVec.ofNat_toNat]
    simpa using whole

/-- The bits of a NaN have all bits of the exponent and some of the fraction. -/
theorem isNaNPattern_iff (bits : UInt64) :
    IsNaNPattern bits ↔ @unpackExponent .binary64 bits.toBitVec = -1#11 ∧
      @unpackMantissa .binary64 bits.toBitVec ≠ 0#52 := by
  rw [Ne, ← BitVec.toNat_inj, ← BitVec.toNat_inj, toNat_unpackExponent, toNat_unpackMantissa]
  rfl

/-- What a number is, by the fields of its bits. -/
def unpacked (number : Number) : UnpackedFloat :=
  UnpackedFloat.unpack .binary64 number.bits.toBitVec

/-- A number is a NaN by its bits. -/
theorem isNaN_iff (number : Number) : isNaN number = true ↔ IsNaNPattern number.bits := by
  simp [isNaN, biasedExponent, fractionBits, IsNaNPattern]

/-- A number is a zero by its bits. -/
theorem isZero_iff (number : Number) : isZero number = true ↔ IsZeroPattern number.bits := by
  simp [isZero, IsZeroPattern]

/-- A NaN is unpacked without its sign and payload. -/
theorem unpacked_of_isNaN {number : Number} (nan : IsNaNPattern number.bits) :
    number.unpacked = .notANumber := by
  obtain ⟨full, some⟩ := (isNaNPattern_iff number.bits).mp nan
  unfold unpacked UnpackedFloat.unpack
  dsimp only
  rw [if_pos full, if_neg some]

/-- The bits of a number that is no NaN are read without loss. -/
theorem pack_unpacked {number : Number} (isNumber : ¬IsNaNPattern number.bits) :
    UnpackedFloat.pack .binary64 number.unpacked = number.bits.toBitVec := by
  rw [isNaNPattern_iff, not_and, Classical.not_not] at isNumber
  exact pack_unpack_of_ne_nan isNumber

/-- Only a NaN is unpacked to one. -/
theorem unpacked_eq_notANumber_iff (number : Number) :
    number.unpacked = .notANumber ↔ IsNaNPattern number.bits := by
  refine ⟨fun unpacked => Classical.byContradiction fun isNumber => ?_, unpacked_of_isNaN⟩
  have bits := pack_unpacked isNumber
  rw [unpacked] at bits
  apply isNumber
  rw [← UInt64.ofBitVec_toBitVec number.bits, ← bits]
  decide

/-- Numbers that are no NaN are told apart by what they are unpacked to. -/
theorem unpacked_inj {left right : Number} (leftNumber : ¬IsNaNPattern left.bits)
    (rightNumber : ¬IsNaNPattern right.bits) :
    left.unpacked = right.unpacked ↔ left = right := by
  refine ⟨fun same => ?_, congrArg unpacked⟩
  have bits := pack_unpacked rightNumber
  rw [← same, pack_unpacked leftNumber] at bits
  exact Number.ext (UInt64.toBitVec_inj.mp bits)

/-- The double of a number is the number, but all NaN are one double. -/
theorem unpack_toFloat (number : Number) : number.toFloat.toModel.unpack = number.unpacked := by
  change UnpackedFloat.unpack .binary64 (UnpackedFloat.pack .binary64 number.unpacked) = _
  by_cases nan : IsNaNPattern number.bits
  · rw [unpacked_of_isNaN nan]
    rfl
  · rw [pack_unpacked nan]
    rfl

/-- A NaN is no zero. -/
theorem not_isZeroPattern {bits : UInt64} (nan : IsNaNPattern bits) : ¬IsZeroPattern bits := by
  unfold IsNaNPattern IsZeroPattern at *
  simp only [Nat.pow_eq] at *
  omega

/-- Only a zero is unpacked to one. -/
theorem exists_unpacked_zero_iff (number : Number) :
    (∃ sign, number.unpacked = .zero sign) ↔ IsZeroPattern number.bits := by
  have size : number.bits.toBitVec.toNat < 2 ^ 64 := number.bits.toBitVec.isLt
  have fields : IsZeroPattern number.bits ↔
      @unpackExponent .binary64 number.bits.toBitVec = 0#11 ∧
        @unpackMantissa .binary64 number.bits.toBitVec = 0#52 := by
    rw [← BitVec.toNat_inj, ← BitVec.toNat_inj, toNat_unpackExponent, toNat_unpackMantissa]
    change number.bits.toBitVec.toNat % 2 ^ 63 = 0 ↔
      number.bits.toBitVec.toNat / 2 ^ 52 % 2 ^ 11 = 0 ∧ number.bits.toBitVec.toNat % 2 ^ 52 = 0
    omega
  rw [fields]
  unfold unpacked UnpackedFloat.unpack
  dsimp only
  by_cases full : @unpackExponent .binary64 number.bits.toBitVec = -1#11
  · have nonempty : @unpackExponent .binary64 number.bits.toBitVec ≠ 0#11 := by
      rw [full]
      decide
    rw [if_pos full]
    refine iff_of_false (fun ⟨sign, isZero⟩ => ?_) fun both => nonempty both.1
    by_cases none : @unpackMantissa .binary64 number.bits.toBitVec = 0#52
    · rw [if_pos none] at isZero
      cases isZero
    · rw [if_neg none] at isZero
      cases isZero
  rw [if_neg full]
  by_cases empty : @unpackExponent .binary64 number.bits.toBitVec = 0#11
  · rw [if_pos empty]
    by_cases none : @unpackMantissa .binary64 number.bits.toBitVec = 0#52
    · rw [dif_pos none]
      exact iff_of_true ⟨_, rfl⟩ ⟨empty, none⟩
    · rw [dif_neg none]
      exact iff_of_false (fun ⟨_, isZero⟩ => nomatch isZero) fun both => none both.2
  · rw [if_neg empty]
    exact iff_of_false (fun ⟨_, isZero⟩ => nomatch isZero) fun both => empty both.1

/-- Signs compare as equal if they are the same. -/
theorem compare_sign_eq_iff (left right : Sign) : compare left right = .eq ↔ left = right := by
  cases left <;> cases right
  · exact iff_of_true rfl rfl
  · exact iff_of_false (by decide) Sign.noConfusion
  · exact iff_of_false (by decide) Sign.noConfusion
  · exact iff_of_true rfl rfl

/-- Finite numbers compare as equal if they have the same sign, exponent and mantissa. -/
theorem compare_finite_eq_iff {left right : Sign} {mantissa other : Nat} {exponent power : Int}
    (positive : 0 < mantissa) (otherPositive : 0 < other) :
    (UnpackedFloat.finite left mantissa exponent positive).compare
        (.finite right other power otherPositive) = some .eq ↔
      UnpackedFloat.finite left mantissa exponent positive =
        .finite right other power otherPositive := by
  have parts : UnpackedFloat.finite left mantissa exponent positive =
        .finite right other power otherPositive ↔
      left = right ∧ exponent = power ∧ mantissa = other := by
    constructor
    · intro same
      cases same
      exact ⟨rfl, rfl, rfl⟩
    · rintro ⟨rfl, rfl, rfl⟩
      rfl
  rw [parts]
  cases left <;> cases right
  · change some ((compare exponent power).then (compare mantissa other)).swap = some .eq ↔ _
    simp [Ordering.then_eq_eq, Ordering.swap_eq_eq]
  · change some Ordering.lt = some .eq ↔ _
    simp
  · change some Ordering.gt = some .eq ↔ _
    simp
  · change some ((compare exponent power).then (compare mantissa other)) = some .eq ↔ _
    simp [Ordering.then_eq_eq]

/-- Numbers compare as equal if they are the same or both zero. -/
theorem compare_eq_iff (left right : UnpackedFloat) :
    left.compare right = some .eq ↔
      left ≠ .notANumber ∧ left = right ∨
        (∃ sign, left = .zero sign) ∧ ∃ sign, right = .zero sign := by
  constructor
  · intro equal
    cases left with
    | notANumber => cases equal
    | infinity sign =>
        cases right with
        | infinity other =>
            have same := (compare_sign_eq_iff sign other).mp (Option.some.inj equal)
            exact .inl ⟨UnpackedFloat.noConfusion, congrArg _ same⟩
        | _ => cases sign <;> cases equal
    | zero sign =>
        cases right with
        | zero other => exact .inr ⟨⟨sign, rfl⟩, other, rfl⟩
        | notANumber => cases equal
        | infinity other | finite other => cases other <;> cases equal
    | finite sign mantissa exponent positive =>
        cases right with
        | finite => exact .inl ⟨UnpackedFloat.noConfusion, (compare_finite_eq_iff _ _).mp equal⟩
        | notANumber => cases equal
        | infinity other => cases sign <;> cases other <;> cases equal
        | zero => cases sign <;> cases equal
  · rintro (⟨isNumber, rfl⟩ | ⟨⟨sign, rfl⟩, other, rfl⟩)
    · cases left with
      | notANumber => exact absurd rfl isNumber
      | infinity sign => exact congrArg some ((compare_sign_eq_iff sign sign).mpr rfl)
      | zero => rfl
      | finite => exact (compare_finite_eq_iff _ _).mpr rfl
    · rfl

/-- Numbers are the same if they are no NaN, and have the same bits or are both zero. -/
theorem same_iff (left right : Number) :
    same left right = true ↔
      ¬IsNaNPattern left.bits ∧ ¬IsNaNPattern right.bits ∧
        (left.bits = right.bits ∨ IsZeroPattern left.bits ∧ IsZeroPattern right.bits) := by
  rw [← isNaN_iff, ← isNaN_iff, ← isZero_iff, ← isZero_iff, or_comm]
  simp [same, and_assoc]

/-- Numbers are the same if they are equal as doubles. -/
theorem same_eq_beq (left right : Number) : same left right = (left.toFloat == right.toFloat) := by
  have doubles : (left.toFloat == right.toFloat) = true ↔
      left.unpacked.compare right.unpacked = some .eq := by
    rw [← unpack_toFloat left, ← unpack_toFloat right]
    exact beq_iff_eq (α := Option Ordering)
  rw [Bool.eq_iff_iff, doubles, compare_eq_iff, exists_unpacked_zero_iff, exists_unpacked_zero_iff,
    same_iff]
  by_cases leftNaN : IsNaNPattern left.bits
  · have nonzero := not_isZeroPattern leftNaN
    simp [leftNaN, nonzero, unpacked_eq_notANumber_iff]
  by_cases rightNaN : IsNaNPattern right.bits
  · have nonzero := not_isZeroPattern rightNaN
    simp [rightNaN, nonzero, unpacked_of_isNaN]
  rw [Ne, unpacked_eq_notANumber_iff, unpacked_inj leftNaN rightNaN, Number.ext_iff]
  simp [leftNaN, rightNaN]

end OffsideScript.Number
