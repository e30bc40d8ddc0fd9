import Mathlib
import PixelTree.Color.Basic

/-! Blending in from black, in single precision: a color at full brightness comes out as it is. -/

namespace PixelTree.Single

open Float.Model (Format UnpackedFloat totalExponent)
open Float.Model.UnpackedFloat

variable {significand : Nat} {exponent : Int}

-----------------------------------------------------------------------------------------
-- Shifting and rounding
-----------------------------------------------------------------------------------------

theorem targetExponent_eq (significand : Nat) (exponent : Int)
    : Format.binary32.targetExponent (totalExponent significand exponent)
      = max (significand.log2 + 1 + exponent - 24) (-149) :=
  rfl

theorem log2_mul_two_pow (positive : 0 < significand) (k : Nat)
    : (significand * 2 ^ k).log2 = significand.log2 + k := by
  have low := Nat.log2_self_le positive.ne'
  have high := @Nat.lt_log2_self significand
  rw [Nat.log2_eq_iff (by positivity), Nat.add_right_comm, pow_add _ _ k, pow_add _ _ k]
  exact ⟨Nat.mul_le_mul_right _ low, Nat.mul_lt_mul_of_pos_right high (by positivity)⟩

theorem shiftRight_succ (x : ExtendedMantissa) (k : Nat)
    : x >>> (k + 1) = (x >>> k).shiftRightOne :=
  rfl

/-- Zeros that were appended to a significand are shifted out again, and nothing else is. -/
theorem shiftRight_appended (significand k : Nat)
    : ExtendedMantissa.ofMantissaAndAccuracy (significand * 2 ^ k) .exact >>> k
      = ⟨significand, false, false⟩ := by
  induction k generalizing significand with
  | zero =>
      rw [pow_zero, mul_one]
      rfl
  | succ k ih =>
      have doubled : significand * 2 ^ (k + 1) = significand * 2 * 2 ^ k := by ring
      rw [doubled, shiftRight_succ, ih, ExtendedMantissa.shiftRightOne]
      simp

theorem mantissa_shiftRight (x : ExtendedMantissa) (k : Nat)
    : (x >>> k).mantissa = x.mantissa / 2 ^ k := by
  induction k with
  | zero => exact (Nat.div_one _).symm
  | succ k ih =>
      rw [shiftRight_succ, ExtendedMantissa.shiftRightOne, ih, Nat.div_div_eq_div_mul, pow_succ]

theorem mantissa_ofMantissaAndAccuracy (significand : Nat) (accuracy : Accuracy)
    : (ExtendedMantissa.ofMantissaAndAccuracy significand accuracy).mantissa = significand := by
  rcases accuracy with _ | (_ | _ | _) <;> rfl

theorem le_roundToNearestEven (significand : Nat) (accuracy : Accuracy)
    : significand ≤ accuracy.roundToNearestEven significand := by
  rcases accuracy with _ | (_ | _ | _) <;> simp [Accuracy.roundToNearestEven]

-----------------------------------------------------------------------------------------
-- Numbers as the format holds them
-----------------------------------------------------------------------------------------

/-- A significand and an exponent as the format holds them: the significand fills its 24 bits, or
the exponent is the least one.
-/
def Canonical (significand : Nat) (exponent : Int) : Prop :=
  max (significand.log2 + 1 + exponent - 24) (-149) = exponent

/-- Finite numbers are canonical, by cases on the exponent field: the subnormal ones have the least
exponent, the others the leading bit that is not written.
-/
theorem canonical_of_unpack {bits : BitVec Format.binary32.numBits} {sign : Sign}
    {positive : 0 < significand}
    (unpacked : unpack Format.binary32 bits = .finite sign significand exponent positive)
    : Canonical significand exponent := by
  have bound : (unpackMantissa bits).toNat < 8388608 := (unpackMantissa bits).isLt
  have bias : (Format.binary32.exponentBias : Int) + Format.binary32.mantissaBitsWithoutImplicit
      = 150 :=
    rfl
  unfold unpack at unpacked
  simp only [bias] at unpacked
  split at unpacked
  · split at unpacked <;> cases unpacked
  · split at unpacked
    · next subnormal =>
        split at unpacked
        · cases unpacked
        · cases unpacked
          have field : (unpackExponent bits).toNat = 0 := congrArg BitVec.toNat subnormal
          have short := (Nat.log2_lt (k := 23) positive.ne').mpr bound
          rw [Canonical, field]
          omega
    · next normal =>
        cases unpacked
        have field : (unpackExponent bits).toNat ≠ 0 :=
          fun empty => normal (BitVec.toNat_inj.mp empty)
        have value : (1#1 ++ unpackMantissa bits).toNat
            = 8388608 + (unpackMantissa bits).toNat := by
          rw [BitVec.toNat_append, ← Nat.shiftLeft_add_eq_or_of_lt (unpackMantissa bits).isLt]
          rfl
        have full : (1#1 ++ unpackMantissa bits).toNat.log2 = 23 := by
          rw [Nat.log2_eq_iff positive.ne', value]
          omega
        rw [Canonical, full]
        omega

/-- A number whose significand was lengthened by zeros is rounded back to itself. -/
theorem roundWithAccuracy_of_canonical (sign : Sign) (canonical : Canonical significand exponent)
    (positive : 0 < significand) (k : Nat)
    : roundWithAccuracy Format.binary32 sign (significand * 2 ^ k) (exponent - k) .exact
      = .finite sign significand exponent positive := by
  have shifted (k : Nat)
      : shiftToTargetExponent Format.binary32 (significand * 2 ^ k) (exponent - k) .exact
        = (⟨significand, false, false⟩, exponent) := by
    have target : Format.binary32.targetExponent
        (totalExponent (significand * 2 ^ k) (exponent - k)) = exponent := by
      rw [Canonical] at canonical
      rw [targetExponent_eq, log2_mul_two_pow positive]
      omega
    have amount : (exponent - (exponent - k)).toNat = k := by omega
    rw [shiftToTargetExponent, target, shiftToExponent, amount, shiftRight_appended]
    simp
  have unchanged : shiftToTargetExponent Format.binary32 significand exponent .exact
      = (⟨significand, false, false⟩, exponent) := by
    simpa using shifted 0
  have rounded : (⟨significand, false, false⟩ : ExtendedMantissa).roundedMantissa = significand :=
    rfl
  rw [roundWithAccuracy, shifted k]
  simp only [rounded, unchanged]
  rw [dif_neg positive.ne']

theorem ofModel_pack_unpack (x : Float32)
    : Float32.ofModel (Float32.Model.pack x.toModel.unpack) = x := by
  rw [← Float32.toBits_inj, ← UInt32.toBitVec_inj]
  exact pack_unpack_of_valid x.toModel.valid

-----------------------------------------------------------------------------------------
-- Numbers that are neither zero nor undefined
-----------------------------------------------------------------------------------------

/-- Finite and not zero, or infinite. -/
def Sizable : UnpackedFloat → Prop
  | .infinity _ | .finite .. => True
  | .notANumber | .zero _ => False

theorem sizable_unpack_packComponents (sign : Sign) {field : BitVec 8} {mantissa : BitVec 23}
    (below : field ≠ -1#8) (nonzero : field ≠ 0#8 ∨ mantissa ≠ 0#23)
    : Sizable
        (unpack Format.binary32 (packComponents Format.binary32 sign field mantissa)) := by
  unfold unpack
  simp only [unpackExponent_packComponents, unpackMantissa_packComponents]
  rw [if_neg below]
  split
  · next empty =>
      rw [dif_neg (nonzero.resolve_left (not_not_intro empty))]
      trivial
  · trivial

/-- Packing keeps a number that is not zero from becoming one: it overflows to infinity, has an
exponent field, or has a mantissa.
-/
theorem sizable_unpack_pack (sign : Sign) (positive : 0 < significand)
    (short : significand < 2 ^ 24) (least : -149 ≤ exponent)
    : Sizable
        (unpack Format.binary32
          (UnpackedFloat.pack Format.binary32 (.finite sign significand exponent positive))) := by
  have biased : exponent + Format.binary32.exponentBias
      + Format.binary32.mantissaBitsWithoutImplicit = exponent + 150 := by
    change exponent + 127 + 23 = _
    omega
  have bits : Format.binary32.mantissaBits = 24 := rfl
  simp only [UnpackedFloat.pack, biased, bits]
  split
  · cases sign <;> trivial
  · next finite =>
      change ¬ 256 ≤ (exponent + 150).toNat + 1 at finite
      split
      · have value : (BitVec.ofNat 8 (exponent + 150).toNat).toNat = (exponent + 150).toNat :=
          Nat.mod_eq_of_lt (by omega)
        refine sizable_unpack_packComponents sign ?_ (.inl ?_)
        · intro full
          have all : (BitVec.ofNat 8 (exponent + 150).toNat).toNat = 255 :=
            congrArg BitVec.toNat full
          omega
        · intro empty
          have none : (BitVec.ofNat 8 (exponent + 150).toNat).toNat = 0 :=
            congrArg BitVec.toNat empty
          omega
      · next notFull =>
          have within := (Nat.log2_lt positive.ne').mpr short
          have below := (Nat.log2_lt (k := 23) positive.ne').mp (by omega)
          have value : (BitVec.ofNat 23 significand).toNat = significand :=
            Nat.mod_eq_of_lt below
          refine sizable_unpack_packComponents sign (by decide) (.inr ?_)
          intro empty
          have none : (BitVec.ofNat 23 significand).toNat = 0 := congrArg BitVec.toNat empty
          omega

/-- Brought to the exponent of the format, a significand keeps a bit and has at most 24. -/
theorem shifted_bounds (positive : 0 < significand) (least : -149 ≤ exponent)
    : let shift :=
        (Format.binary32.targetExponent (totalExponent significand exponent) - exponent).toNat
      0 < significand / 2 ^ shift ∧ significand / 2 ^ shift < 2 ^ 24 := by
  intro shift
  have low := Nat.log2_self_le positive.ne'
  have high := @Nat.lt_log2_self significand
  have shift_eq : shift = significand.log2 - 23 := by
    simp only [shift, targetExponent_eq]
    omega
  rw [Nat.div_pos_iff, Nat.div_lt_iff_lt_mul (by positivity), ← pow_add, shift_eq]
  refine ⟨⟨by positivity, ?_⟩, ?_⟩
  · exact (Nat.pow_le_pow_right two_pos (Nat.sub_le _ _)).trans low
  · exact high.trans_le (Nat.pow_le_pow_right two_pos (by omega))

/-- Rounding shifts twice, as the first shift can carry into another bit. -/
theorem roundWithAccuracy_bounds (sign : Sign) (positive : 0 < significand)
    (least : -149 ≤ exponent) (accuracy : Accuracy)
    : ∃ rounded scale positive,
        roundWithAccuracy Format.binary32 sign significand exponent accuracy
          = .finite sign rounded scale positive
        ∧ rounded < 2 ^ 24
        ∧ -149 ≤ scale := by
  have keeps := (shifted_bounds positive least).1
  rw [roundWithAccuracy, shiftToTargetExponent, shiftToExponent]
  generalize (Format.binary32.targetExponent (totalExponent significand exponent)
    - exponent).toNat = shift at keeps ⊢
  simp only
  generalize rounded_eq : (ExtendedMantissa.ofMantissaAndAccuracy significand accuracy
    >>> shift).roundedMantissa = rounded
  have keepsRounded : 0 < rounded := by
    refine keeps.trans_le ?_
    rw [← rounded_eq, ExtendedMantissa.roundedMantissa, mantissa_shiftRight,
      mantissa_ofMantissaAndAccuracy]
    exact le_roundToNearestEven _ _
  have leastAgain : -149 ≤ exponent + shift := by omega
  obtain ⟨keepsAgain, short⟩ := shifted_bounds keepsRounded leastAgain
  simp only [shiftToTargetExponent, shiftToExponent, mantissa_shiftRight,
    mantissa_ofMantissaAndAccuracy]
  rw [dif_neg keepsAgain.ne']
  exact ⟨_, _, keepsAgain, rfl, short, by omega⟩

theorem round_bounds (sign : Sign) (positive : 0 < significand) (least : -149 ≤ exponent)
    : ∃ rounded scale positive,
        UnpackedFloat.round Format.binary32 sign significand exponent
          = .finite sign rounded scale positive
        ∧ rounded < 2 ^ 24
        ∧ -149 ≤ scale := by
  have lengthened (k : Nat) : 0 < significand <<< k := by
    rw [Nat.shiftLeft_eq]
    positivity
  rw [UnpackedFloat.round, decreaseExponent, targetExponent_eq]
  exact roundWithAccuracy_bounds sign (lengthened _) (by omega) .exact

theorem sizable_ofNat {n : Nat} (positive : 0 < n) (bound : n < Numeral.wordLimit)
    : Sizable (UInt64.ofNat n).toFloat32.toModel.unpack := by
  have value : (UInt64.ofNat n).toNat = n := UInt64.toNat_ofNat_of_lt' bound
  have above : compare (n : Int) 0 = .gt := Int.compare_eq_gt.mpr (by omega)
  have form : UnpackedFloat.ofNat Format.binary32 n
      = UnpackedFloat.round Format.binary32 .positive n 0 := by
    rw [UnpackedFloat.ofNat, UnpackedFloat.ofInt, UnpackedFloat.normalize, above]
    rfl
  have unpacked : (UInt64.ofNat n).toFloat32.toModel.unpack
      = unpack Format.binary32
          (UnpackedFloat.pack Format.binary32
            (UnpackedFloat.ofNat Format.binary32 (UInt64.ofNat n).toNat)) :=
    rfl
  obtain ⟨rounded, scale, positive', rounds, short, least⟩ :=
    round_bounds .positive positive (show (-149 : Int) ≤ 0 by decide)
  rw [unpacked, value, form, rounds]
  exact sizable_unpack_pack _ positive' short least

-----------------------------------------------------------------------------------------
-- Arithmetic with zero and one
-----------------------------------------------------------------------------------------

theorem unpack_zero : (0 : Float32).toModel.unpack = .zero .positive :=
  rfl

theorem unpack_one : (1 : Float32).toModel.unpack = .finite .positive (2 ^ 23) (-23) (by decide) :=
  rfl

protected theorem sub_zero (x : Float32) : x - 0 = x := by
  have unchanged : UnpackedFloat.sub Format.binary32 x.toModel.unpack (.zero .positive)
      = x.toModel.unpack := by
    cases x.toModel.unpack with
    | zero sign => cases sign <;> rfl
    | _ => rfl
  calc
    x - 0 = .ofModel (.pack (.sub .binary32 x.toModel.unpack (.zero .positive))) := rfl
    _ = x := by rw [unchanged, ofModel_pack_unpack]

protected theorem mul_one (x : Float32) : x * 1 = x := by
  have unchanged
      : UnpackedFloat.mul Format.binary32 x.toModel.unpack
          (.finite .positive (2 ^ 23) (-23) (by decide))
        = x.toModel.unpack := by
    cases form : x.toModel.unpack with
    | finite sign significand exponent positive =>
        have signed : sign * .positive = sign := by cases sign <;> rfl
        rw [UnpackedFloat.mul, signed]
        exact roundWithAccuracy_of_canonical sign (canonical_of_unpack form) positive 23
    | infinity sign => cases sign <;> rfl
    | zero sign => cases sign <;> rfl
    | notANumber => rfl
  calc
    x * 1
      = .ofModel
          (.pack
            (.mul .binary32 x.toModel.unpack (.finite .positive (2 ^ 23) (-23) (by decide)))) :=
        rfl
    _ = x := by rw [unchanged, ofModel_pack_unpack]

protected theorem zero_add {x : Float32} (signed : x ≠ -0) : 0 + x = x := by
  have unchanged : UnpackedFloat.add Format.binary32 (.zero .positive) x.toModel.unpack
      = x.toModel.unpack := by
    cases form : x.toModel.unpack with
    | zero sign =>
        cases sign with
        | positive => rfl
        | negative =>
            refine absurd ?_ signed
            rw [← ofModel_pack_unpack x, form]
            rfl
    | _ => rfl
  calc
    0 + x = .ofModel (.pack (.add .binary32 (.zero .positive) x.toModel.unpack)) := rfl
    _ = x := by rw [unchanged, ofModel_pack_unpack]

theorem one_sub_zero_div {x : Float32} (sizable : Sizable x.toModel.unpack) : 1 - 0 / x = 1 := by
  have quotient : ∃ sign, 0 / x = .ofModel (.pack (.zero sign)) := by
    have shown : 0 / x = .ofModel (.pack (.div .binary32 (.zero .positive) x.toModel.unpack)) :=
      rfl
    rw [shown]
    generalize x.toModel.unpack = divisor at sizable ⊢
    cases divisor with
    | infinity sign => exact ⟨_, rfl⟩
    | finite sign => exact ⟨_, rfl⟩
    | notANumber => cases sizable
    | zero => cases sizable
  obtain ⟨sign, zero⟩ := quotient
  rw [zero]
  cases sign <;> rfl

end PixelTree.Single

namespace PixelTree.Color

-----------------------------------------------------------------------------------------
-- Full brightness
-----------------------------------------------------------------------------------------

/-- No channel is the zero below zero, which a blend turns into the zero above. -/
structure NoNegativeZero (color : Color) : Prop where
  red : color.red ≠ -0
  green : color.green ≠ -0
  blue : color.blue ≠ -0

theorem blendChannel_zero_one {x : Float32} (signed : x ≠ -0) : blendChannel 0 x 1 = x := by
  rw [blendChannel, Single.sub_zero, Single.mul_one, Single.zero_add signed]

theorem blend_black_one {color : Color} (signed : color.NoNegativeZero)
    : black.blend color 1 = color := by
  rw [blend, black, blendChannel_zero_one signed.red, blendChannel_zero_one signed.green,
    blendChannel_zero_one signed.blue]

end PixelTree.Color
