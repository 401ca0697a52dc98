import OffsideScript.Heap.Basic
import OffsideScript.Proofs.Number.Pattern

namespace OffsideScript

/-- What a map relies on: sameness of keys is an equivalence that their hash respects. Keys with the
same hash may differ. -/
class LawfulMapKey (κ : Type) [MapKey κ] : Prop where
  same_refl : ∀ key : κ, MapKey.same key key = true
  same_symm : ∀ left right : κ, MapKey.same left right = true → MapKey.same right left = true
  same_trans : ∀ first second third : κ, MapKey.same first second = true →
    MapKey.same second third = true → MapKey.same first third = true
  hash_eq : ∀ left right : κ, MapKey.same left right = true →
    MapKey.hash left = MapKey.hash right

namespace Value

/-- The key of a number keeps its bits, unless it is NaN or zero. -/
theorem numberKey_eq (number : Number) :
    numberKey number =
      if Number.IsNaNPattern number.bits then 0x7ff8000000000000
      else if Number.IsZeroPattern number.bits then 0
      else number.bits := by
  simp only [numberKey, Number.isNaN_iff, Number.isZero_iff]

/-- The key of a number is NaN if the number is. -/
theorem isNaNPattern_numberKey (number : Number) :
    Number.IsNaNPattern (numberKey number) ↔ Number.IsNaNPattern number.bits := by
  rw [numberKey_eq]
  split
  · next nan => exact iff_of_true (by decide) nan
  · next isNumber =>
      split
      · exact iff_of_false (by decide) isNumber
      · rfl

/-- The key of a number is zero if the number is. -/
theorem isZeroPattern_numberKey (number : Number) :
    Number.IsZeroPattern (numberKey number) ↔ Number.IsZeroPattern number.bits := by
  rw [numberKey_eq]
  split
  · next nan => exact iff_of_false (by decide) (Number.not_isZeroPattern nan)
  · split
    · next zero => exact iff_of_true (by decide) zero
    · rfl

/-- Two numbers have one key if their bits are the same, if both are NaN or if both are zero. -/
theorem numberKey_eq_iff (left right : Number) :
    numberKey left = numberKey right ↔
      left.bits = right.bits ∨
        Number.IsNaNPattern left.bits ∧ Number.IsNaNPattern right.bits ∨
        Number.IsZeroPattern left.bits ∧ Number.IsZeroPattern right.bits := by
  constructor
  · intro same
    have nan := isNaNPattern_numberKey right
    have zero := isZeroPattern_numberKey right
    rw [← same, isNaNPattern_numberKey] at nan
    rw [← same, isZeroPattern_numberKey] at zero
    by_cases leftNaN : Number.IsNaNPattern left.bits
    · exact .inr (.inl ⟨leftNaN, nan.mp leftNaN⟩)
    by_cases leftZero : Number.IsZeroPattern left.bits
    · exact .inr (.inr ⟨leftZero, zero.mp leftZero⟩)
    rw [numberKey_eq, numberKey_eq, if_neg leftNaN, if_neg leftZero, if_neg (mt nan.mpr leftNaN),
      if_neg (mt zero.mpr leftZero)] at same
    exact .inl same
  · rintro (same | ⟨leftNaN, rightNaN⟩ | ⟨leftZero, rightZero⟩)
    · rw [numberKey_eq, numberKey_eq, same]
    · rw [numberKey_eq, numberKey_eq, if_pos leftNaN, if_pos rightNaN]
    · have leftNumber : ¬Number.IsNaNPattern left.bits := fun nan =>
        Number.not_isZeroPattern nan leftZero
      have rightNumber : ¬Number.IsNaNPattern right.bits := fun nan =>
        Number.not_isZeroPattern nan rightZero
      rw [numberKey_eq, numberKey_eq, if_neg leftNumber, if_neg rightNumber, if_pos leftZero,
        if_pos rightZero]

/-- Numbers are the same key if they have the same bits or are both NaN or both zero. -/
theorem keyEquals_number (left right : Number) :
    (number left).keyEquals (number right) = true ↔
      left.bits = right.bits ∨
        Number.IsNaNPattern left.bits ∧ Number.IsNaNPattern right.bits ∨
        Number.IsZeroPattern left.bits ∧ Number.IsZeroPattern right.bits := by
  rw [keyEquals, Bool.or_eq_true, Bool.and_eq_true, Number.same_iff, Number.isNaN_iff,
    Number.isNaN_iff]
  by_cases leftNaN : Number.IsNaNPattern left.bits
  · by_cases same : left.bits = right.bits
    · simp [leftNaN, ← same]
    · simp [leftNaN, same, Number.not_isZeroPattern leftNaN]
  by_cases rightNaN : Number.IsNaNPattern right.bits
  · have different : left.bits ≠ right.bits := fun same => leftNaN (same ▸ rightNaN)
    simp [leftNaN, different, Number.not_isZeroPattern rightNaN]
  · simp [leftNaN, rightNaN]

/-- Values are the same map key if what is hashed of them is equal. -/
theorem keyEquals_iff (left right : Value) :
    left.keyEquals right = true ↔ left.key = right.key := by
  cases left <;> cases right
  case number.number left right =>
    rw [keyEquals_number, ← numberKey_eq_iff]
    simp [key]
  all_goals simp [keyEquals, equals, key]
  case array.array left right => cases left; cases right; simp
  case map.map left right => cases left; cases right; simp
  case function.function left right => cases left; cases right; simp

end Value

instance : LawfulMapKey Value where
  same_refl value := (value.keyEquals_iff value).mpr rfl
  same_symm left right same :=
    (right.keyEquals_iff left).mpr ((left.keyEquals_iff right).mp same).symm
  same_trans first second third left right :=
    (first.keyEquals_iff third).mpr
      (((first.keyEquals_iff second).mp left).trans ((second.keyEquals_iff third).mp right))
  hash_eq left right same := congrArg hash ((left.keyEquals_iff right).mp same)

end OffsideScript
