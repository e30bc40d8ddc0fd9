/-! Finite binary fractions and the numbers that the machine formats stand for.
A finite number is a sign, a whole significand and a power of two, which every operation of
this folder treats exactly.
-/

namespace PixelTree.Decimal

/-- The magnitude `significand * 2 ^ exponent`, with a sign kept apart so that zero has two. -/
structure Binary where
  negative : Bool
  significand : Nat
  exponent : Int
deriving DecidableEq

/-- What a machine number stands for. -/
inductive Reading where
  | finite (value : Binary)
  | infinite (negative : Bool)
  | undefined

/-- A format with the given widths of fraction and exponent field reads a row of bits.
The exponent field zero has no hidden one and shares the scale of exponent field one. -/
def readBits (fractionBits exponentBits bits : Nat) : Reading :=
  let fraction := bits % Nat.pow 2 fractionBits
  let field := bits / Nat.pow 2 fractionBits % Nat.pow 2 exponentBits
  let negative := bits / Nat.pow 2 (fractionBits + exponentBits) % 2 == 1
  let bias : Int := (Nat.pow 2 (exponentBits - 1) - 1 + fractionBits : Nat)
  if field = Nat.pow 2 exponentBits - 1 then
    if fraction = 0 then .infinite negative else .undefined
  else if field = 0 then .finite ⟨negative, fraction, 1 - bias⟩
  else .finite ⟨negative, fraction + Nat.pow 2 fractionBits, field - bias⟩

def ofFloat (x : Float) : Reading :=
  readBits 52 11 x.toBits.toNat

def ofFloat32 (x : Float32) : Reading :=
  readBits 23 8 x.toBits.toNat

/-- The whole numerator of the magnitude over `denominator`. -/
def Binary.numerator (x : Binary) : Nat :=
  x.significand * Nat.pow 2 x.exponent.toNat

/-- A power of two that makes the magnitude a quotient of whole numbers. -/
def Binary.denominator (x : Binary) : Nat :=
  Nat.pow 2 (-x.exponent).toNat

/-- The whole number nearest to `numerator / denominator`, a half going to the even neighbour. -/
def roundHalfEven (numerator denominator : Nat) : Nat :=
  let quotient := numerator / denominator
  let twice := 2 * (numerator % denominator)
  if twice < denominator ∨ (twice = denominator ∧ quotient % 2 = 0) then quotient
  else quotient + 1

end PixelTree.Decimal
