import Mathlib
import PixelTree.Decimal.Reader
import PixelTree.Decimal.Shortest

/-! What the bits of a finite 64-bit number stand for. -/

namespace PixelTree.Decimal

open Float.Model (Format)
open Float.Model.UnpackedFloat

theorem toNat_unpackExponent (bits : BitVec Format.binary64.numBits)
    : (unpackExponent bits).toNat = bits.toNat / 4503599627370496 % 2048 := by
  simp [unpackExponent, Nat.shiftRight_eq_div_pow]

/-- A significand and an exponent as the format holds them: 53 bits are used up, except next to
zero, where the exponent is the least one.
-/
structure Binary.Canonical (x : Binary) : Prop where
  least : -1074 ≤ x.exponent
  most : x.exponent ≤ 971
  below : x.significand < 9007199254740992
  full : x.exponent = -1074 ∨ 4503599627370496 ≤ x.significand

/-- Bits of a magnitude. The hidden one of a significand carries into the exponent field. -/
def Binary.magnitudeBits (x : Binary) : Nat :=
  (x.exponent + 1074).toNat * 4503599627370496 + x.significand

/-- A finite number has an exponent field that is not all ones. -/
theorem exponentField_of_isFinite {x : Float} (finite : x.isFinite = true)
    : x.toBits.toNat / 4503599627370496 % 2048 ≠ 2047 := by
  intro field
  have full : @unpackExponent Format.binary64 x.toBits.toBitVec = -1#_ := by
    rw [← BitVec.toNat_inj, toNat_unpackExponent]
    exact field
  have broken : (unpack Format.binary64 x.toBits.toBitVec).isFinite = false := by
    unfold unpack
    dsimp only
    rw [if_pos full]
    split <;> rfl
  have same : x.isFinite = (unpack Format.binary64 x.toBits.toBitVec).isFinite := rfl
  rw [same, broken] at finite
  cases finite

/-- The reading of a finite number is canonical and has the number's bits, the topmost of which
is the sign.
-/
theorem ofFloat_of_isFinite {x : Float} (finite : x.isFinite = true)
    : ∃ value,
        ofFloat x = .finite value
        ∧ value.Canonical
        ∧ value.magnitudeBits + (if value.negative then 9223372036854775808 else 0)
          = x.toBits.toNat := by
  have field := exponentField_of_isFinite finite
  have bound : x.toBits.toNat < 18446744073709551616 := x.toBits.toNat_lt
  have reading : ofFloat x = readBits 52 11 x.toBits.toNat := rfl
  rw [reading]
  generalize x.toBits.toNat = bits at field bound ⊢
  simp only [readBits]
  change ∃ value,
    (if bits / 4503599627370496 % 2048 = 2047 then _
      else if bits / 4503599627370496 % 2048 = 0 then
        Reading.finite
          ⟨bits / 9223372036854775808 % 2 == 1, bits % 4503599627370496, -1074⟩
      else
        Reading.finite
          ⟨bits / 9223372036854775808 % 2 == 1, bits % 4503599627370496 + 4503599627370496,
            (bits / 4503599627370496 % 2048 : Nat) - 1075⟩)
      = Reading.finite value
    ∧ _
  rw [if_neg field]
  split
  · next subnormal =>
      refine ⟨_, rfl, ⟨by simp, by simp, ?_, Or.inl rfl⟩, ?_⟩
      · dsimp only
        omega
      · simp only [Binary.magnitudeBits, beq_iff_eq]
        split <;> omega
  · next normal =>
      refine ⟨_, rfl, ⟨?_, ?_, ?_, Or.inr ?_⟩, ?_⟩
      · dsimp only
        omega
      · dsimp only
        omega
      · dsimp only
        omega
      · dsimp only
        omega
      · simp only [Binary.magnitudeBits, beq_iff_eq]
        split <;> omega

end PixelTree.Decimal
