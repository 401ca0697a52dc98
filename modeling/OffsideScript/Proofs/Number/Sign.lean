import OffsideScript.Number.Text
import OffsideScript.Proofs.Number.Pattern

namespace OffsideScript.Number

open Float.Model Float.Model.UnpackedFloat

/-- NaN has no sign. Infinities and zeros have one. -/
def Unsigned : UnpackedFloat → Prop
  | .notANumber => True
  | .infinity sign | .zero sign | .finite sign .. => sign = .positive

namespace Unsigned

variable {condition : Prop} [Decidable condition]

/-- A choice between numbers without a sign has none. -/
theorem ite {whenTrue whenFalse : UnpackedFloat} (first : Unsigned whenTrue)
    (second : Unsigned whenFalse) : Unsigned (if condition then whenTrue else whenFalse) := by
  split
  · exact first
  · exact second

/-- A choice that may depend on its condition has no sign if both numbers have none. -/
theorem dite {whenTrue : condition → UnpackedFloat} {whenFalse : ¬condition → UnpackedFloat}
    (first : ∀ holds, Unsigned (whenTrue holds)) (second : ∀ fails, Unsigned (whenFalse fails)) :
    Unsigned (if known : condition then whenTrue known else whenFalse known) := by
  split
  · exact first _
  · exact second _

end Unsigned

/-- Packing a positive sign leaves the highest bit free. -/
theorem toNat_packComponents_positive (exponent : BitVec 11) (mantissa : BitVec 52) :
    (packComponents .binary64 .positive exponent mantissa).toNat < 2 ^ 63 := by
  have high : exponent.toNat < 2 ^ 11 := exponent.isLt
  have low : mantissa.toNat < 2 ^ 52 := mantissa.isLt
  have sign : Sign.positive.toBitVec.toNat = 0 := rfl
  rw [toNat_packComponents, sign]
  omega

/-- A number without a sign leaves the highest bit free. -/
theorem Unsigned.toNat_pack {number : UnpackedFloat} (unsigned : Unsigned number) :
    (UnpackedFloat.pack .binary64 number).toNat < 2 ^ 63 := by
  cases number with
  | notANumber => exact toNat_packComponents_positive _ _
  | infinity sign | zero sign =>
      cases unsigned
      exact toNat_packComponents_positive _ _
  | finite sign mantissa exponent positive =>
      cases unsigned
      unfold UnpackedFloat.pack
      dsimp only
      split
      · exact toNat_packComponents_positive _ _
      · split <;> exact toNat_packComponents_positive _ _

/-- Bits without the highest are a number without a sign. -/
theorem unsigned_unpack {bits : BitVec Format.binary64.numBits} (small : bits.toNat < 2 ^ 63) :
    Unsigned (UnpackedFloat.unpack .binary64 bits) := by
  have sign : Sign.ofBitVec (unpackSign bits) = .positive := by
    apply if_pos
    apply BitVec.eq_of_toNat_eq
    rw [toNat_unpackSign]
    exact Nat.div_eq_of_lt small
  unfold UnpackedFloat.unpack
  dsimp only
  rw [sign]
  exact .ite (.ite rfl trivial) (.ite (.dite (fun _ => rfl) fun _ => rfl) rfl)

/-- Rounding a positive number gives it no sign. -/
theorem unsigned_roundWithAccuracy (spec : Format) (mantissa : Nat) (exponent : Int)
    (accuracy : Accuracy) :
    Unsigned (roundWithAccuracy spec .positive mantissa exponent accuracy) := by
  unfold roundWithAccuracy
  dsimp only
  exact .dite (fun _ => rfl) fun _ => rfl

/-- A quotient of numbers without a sign has none. -/
theorem Unsigned.div {left right : UnpackedFloat} (leftUnsigned : Unsigned left)
    (rightUnsigned : Unsigned right) (spec : Format) : Unsigned (left.div spec right) := by
  cases left with
  | notANumber => trivial
  | infinity | zero =>
      cases leftUnsigned
      cases right with
      | notANumber => trivial
      | infinity | zero | finite =>
          cases rightUnsigned
          trivial
  | finite =>
      cases leftUnsigned
      cases right with
      | notANumber => trivial
      | infinity | zero =>
          cases rightUnsigned
          rfl
      | finite =>
          cases rightUnsigned
          exact unsigned_roundWithAccuracy _ _ _ _

/-- A natural number has no sign. -/
theorem unsigned_ofNat (spec : Format) (number : Nat) :
    Unsigned (UnpackedFloat.ofNat spec number) := by
  unfold UnpackedFloat.ofNat UnpackedFloat.ofInt UnpackedFloat.normalize
  split
  · next negative =>
      rw [Int.compare_eq_lt] at negative
      omega
  · rfl
  · exact unsigned_roundWithAccuracy _ _ _ _

/-- A number in scientific form has no sign. -/
theorem unsigned_ofScientific (spec : Format) (mantissa : Nat) (exponent : Int) :
    Unsigned (UnpackedFloat.ofScientific spec mantissa exponent) := by
  unfold UnpackedFloat.ofScientific
  refine .dite (fun _ => rfl) fun _ => .ite rfl (.ite rfl ?_)
  exact .ite (unsigned_roundWithAccuracy _ _ _ _) (unsigned_roundWithAccuracy _ _ _ _)

/-- The bit above all others is the sign. -/
theorem isNegative_eq_false_iff (number : Number) :
    number.isNegative = false ↔ number.bits.toNat < 2 ^ 63 := by
  have size : number.bits.toNat < 2 ^ 64 := number.bits.toBitVec.isLt
  change (number.bits.toNat / 2 ^ 63 % 2 == 1) = false ↔ _
  rw [beq_eq_false_iff_ne]
  omega

/-- A number without a sign is not negative. -/
theorem Unsigned.isNegative_pack {number : UnpackedFloat} (unsigned : Unsigned number) :
    isNegative (.ofFloat (.ofModel (.pack number))) = false :=
  (isNegative_eq_false_iff _).mpr unsigned.toNat_pack

/-- The powers of ten have no sign. -/
theorem unsigned_power {exponent : Nat} {power : Float}
    (found : Float.exactlyRepresentablePowersOfTen[exponent]? = some power) :
    Unsigned power.toModel.unpack := by
  have small : ∀ power ∈ Float.exactlyRepresentablePowersOfTen, power.toBits.toNat < 2 ^ 63 := by
    decide +kernel
  exact unsigned_unpack (small power (Array.mem_of_getElem? found))

/-- Digits have no sign. -/
theorem isNegative_ofDigits (digits : List Char) : isNegative (ofDigits digits) = false := by
  unfold ofDigits Float.ofScientific
  dsimp only
  split
  · next exact =>
      rw [if_pos rfl]
      apply Unsigned.isNegative_pack
      apply Unsigned.div
      · exact unsigned_unpack (unsigned_ofNat _ _).toNat_pack
      · exact unsigned_power (Array.getElem?_eq_getElem _)
  · exact (unsigned_ofScientific _ _ _).isNegative_pack

end OffsideScript.Number
