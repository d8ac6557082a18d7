import Mathlib
import Lox.Proofs.Decimal.Texts

/-!
# Numbers that are written out

The double nearest to a numeral is a number, unless it is too large and becomes infinite.
-/

namespace Lox.Decimal

open Float.Model Float.Model.UnpackedFloat

theorem isNaN_roundWithAccuracy (sign : UnpackedFloat.Sign) (mantissa : Nat) (exponent : Int)
    (accuracy : Accuracy) :
    (roundWithAccuracy .binary64 sign mantissa exponent accuracy).isNaN = false := by
  unfold roundWithAccuracy
  dsimp only
  split <;> rfl

theorem isNaN_normalize (mantissa : Int) (exponent : Int) (zero : UnpackedFloat.Sign) :
    (UnpackedFloat.normalize .binary64 mantissa exponent zero).isNaN = false := by
  unfold UnpackedFloat.normalize
  split
  · exact isNaN_roundWithAccuracy _ _ _ _
  · rfl
  · exact isNaN_roundWithAccuracy _ _ _ _

theorem isNaN_div {x y : UnpackedFloat} (isNumber : x.isNaN = false) (finite : y.isFinite = true)
    (nonzero : y.beq (.zero .positive) = false) : (div .binary64 x y).isNaN = false := by
  cases y with
  | finite sign mantissa exponent positive =>
      cases x with
      | notANumber => cases isNumber
      | finite _ _ _ _ => exact isNaN_roundWithAccuracy _ _ _ _
      | _ => rfl
  | zero sign => cases nonzero
  | _ => cases finite

/-- Packing makes no NaN. -/
theorem isNaN_pack {x : UnpackedFloat} (isNumber : x.isNaN = false) :
    (Float.Model.pack x).unpack.isNaN = false := by
  rw [Bool.eq_false_iff]
  intro isNaN
  have packed := (isNaN_unpack_iff_of_valid (Float.Model.pack x).valid).mp isNaN
  have packed : UnpackedFloat.pack .binary64 x = packedNaN .binary64 := packed
  have exponents := congrArg unpackExponent packed
  have mantissas := congrArg unpackMantissa packed
  unfold packedNaN at exponents mantissas
  rw [unpackExponent_packComponents] at exponents
  rw [unpackMantissa_packComponents] at mantissas
  have packedOf : ∀ {sign exponent mantissa},
      UnpackedFloat.pack .binary64 x = packComponents .binary64 sign exponent mantissa →
        exponent = -1#11 ∧ mantissa = 1#52 <<< 51 := by
    intro sign exponent mantissa same
    rw [same, unpackExponent_packComponents] at exponents
    rw [same, unpackMantissa_packComponents] at mantissas
    exact ⟨exponents, mantissas⟩
  cases x with
  | notANumber => cases isNumber
  | infinity sign => exact absurd (packedOf rfl).2 (by decide)
  | zero sign => exact absurd (packedOf rfl).1 (by decide)
  | finite sign mantissa exponent positive =>
      unfold UnpackedFloat.pack at packedOf
      dsimp only at packedOf
      split at packedOf
      · exact absurd (packedOf rfl).2 (by decide)
      · split at packedOf
        · next few _ =>
            have toNat := congrArg BitVec.toNat (packedOf rfl).1
            rw [BitVec.toNat_ofNat, Nat.mod_eq_of_lt (by omega)] at toNat
            have all : (-1#11).toNat = 2 ^ 11 - 1 := by decide
            omega
        · exact absurd (packedOf rfl).1 (by decide)

/-- The powers of ten that a numeral may be divided by are neither zero nor infinite. -/
theorem powersOfTen_proper (places : Fin 23) :
    (getElem Float.exactlyRepresentablePowersOfTen places.val
      (by simp [Float.exactlyRepresentablePowersOfTen])).toModel.unpack.isFinite = true ∧
    (getElem Float.exactlyRepresentablePowersOfTen places.val
      (by simp [Float.exactlyRepresentablePowersOfTen])).toModel.unpack.beq (.zero .positive) =
        false := by
  revert places
  decide +kernel

/-- No numeral is read as a NaN. -/
theorem isNaN_ofDigits (whole fraction : List Char) : (ofDigits whole fraction).isNaN = false := by
  unfold ofDigits Float.ofScientific
  generalize natOfDigits (whole ++ fraction) = n
  generalize fraction.length = places
  split
  · next few =>
      obtain ⟨finite, nonzero⟩ := powersOfTen_proper ⟨places, by omega⟩
      exact isNaN_pack (isNaN_div (isNaN_pack (isNaN_normalize _ _ _)) finite nonzero)
  · rw [if_pos rfl]
    refine isNaN_pack ?_
    unfold UnpackedFloat.ofScientific
    split
    · rfl
    split
    · rfl
    split
    · rfl
    split
    · exact isNaN_roundWithAccuracy _ _ _ _
    · exact isNaN_div rfl rfl rfl

theorem toNat_unpackExponent (bits : BitVec 64) :
    (unpackExponent bits : BitVec Format.binary64.exponentBits).toNat =
      bits.toNat / fractions % exponents := by
  simp [unpackExponent, BitVec.extractLsb_toNat, Nat.shiftRight_eq_div_pow]
  rfl

/-- A double that is neither infinite nor a NaN is finite. -/
theorem isFinite_of {x : Float} (notInf : x.isInf = false) (notNaN : x.isNaN = false) :
    IsFinite x := by
  intro all
  have exponent :
      (unpackExponent x.toBits.toBitVec : BitVec Format.binary64.exponentBits) = -1#11 := by
    refine BitVec.eq_of_toNat_eq ?_
    rw [toNat_unpackExponent]
    exact Nat.succ.inj all
  have notInf : (UnpackedFloat.unpack .binary64 x.toBits.toBitVec).isInf = false := notInf
  have notNaN : (UnpackedFloat.unpack .binary64 x.toBits.toBitVec).isNaN = false := notNaN
  unfold UnpackedFloat.unpack at notInf notNaN
  dsimp only at notInf notNaN
  rw [if_pos exponent] at notInf notNaN
  split at notInf
  · cases notInf
  · next inside =>
      rw [if_neg inside] at notNaN
      cases notNaN

end Lox.Decimal
