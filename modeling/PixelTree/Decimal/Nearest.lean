import PixelTree.Decimal.Binary

/-! The 64-bit number nearest to a fraction or to a decimal.
A tie goes to the even significand, and what rounds past the greatest finite number is
infinite.
-/

namespace PixelTree.Decimal

/-- Bits of the infinite magnitude; greater rows of bits stand for no magnitude. -/
def infiniteBits : Nat := 2047 * Nat.pow 2 52

/-- The exponent of two that a fraction is rounded to a multiple of: 53 bits remain above it,
except next to zero. -/
def quantum (numerator denominator : Nat) : Int :=
  let guess : Int := numerator.log2 - denominator.log2
  let isBelow :=
    numerator * Nat.pow 2 (-guess).toNat < denominator * Nat.pow 2 guess.toNat
  let exponent := if isBelow then guess - 1 else guess
  max (exponent - 52) (-1074)

/-- Bits of the magnitude nearest to `numerator / denominator`. A significand that rounds up to
the next power of two carries into the exponent field by itself. -/
def nearestBits (numerator denominator : Nat) : Nat :=
  if numerator = 0 then 0
  else
    let q := quantum numerator denominator
    let significand :=
      roundHalfEven (numerator * Nat.pow 2 (-q).toNat) (denominator * Nat.pow 2 q.toNat)
    min ((q + 1074).toNat * Nat.pow 2 52 + significand) infiniteBits

/-- The decimal `coefficient * 10 ^ exponent`. -/
structure Scientific where
  coefficient : Nat
  exponent : Int
deriving DecidableEq

namespace Scientific

/-- Bits of the magnitude nearest to a decimal. Decimals far outside the range of the format
are told by their number of digits alone. -/
def bits (d : Scientific) : Nat :=
  let magnitude : Int := (Nat.toDigits 10 d.coefficient).length + d.exponent
  if d.coefficient = 0 ∨ magnitude < -400 then 0
  else if 400 < magnitude then infiniteBits
  else nearestBits (d.coefficient * Nat.pow 10 d.exponent.toNat) (Nat.pow 10 (-d.exponent).toNat)

/-- The 64-bit number nearest to a signed decimal. -/
def toFloat (negative : Bool) (d : Scientific) : Float :=
  Float.ofBits (UInt64.ofNat (d.bits + if negative then Nat.pow 2 63 else 0))

end Scientific

end PixelTree.Decimal
