import PixelTree.Decimal.Nearest

/-! The shortest decimal that reads back as a given 64-bit number, and its written form.
No exponent is ever written, and a whole number has no point.
-/

namespace PixelTree.Decimal

/-- The power of ten just above a magnitude: the place of its first digit. -/
def firstPlace (x : Binary) : Int :=
  let digits (n : Nat) : Int := (Nat.toDigits 10 n).length
  let guess := digits x.numerator - digits x.denominator
  let isBelow :=
    x.numerator * Nat.pow 10 (-guess).toNat < x.denominator * Nat.pow 10 guess.toNat
  if isBelow then guess else guess + 1

/-- The two decimals of a given place next to a magnitude, the nearer one first; of two equally
near ones the greater. -/
def neighbours (x : Binary) (place : Int) : List Scientific :=
  let numerator := x.numerator * Nat.pow 10 (-place).toNat
  let denominator := x.denominator * Nat.pow 10 place.toNat
  let below := numerator / denominator
  let lower : Scientific := ⟨below, place⟩
  let upper : Scientific := ⟨below + 1, place⟩
  if 2 * (numerator % denominator) < denominator then [lower, upper] else [upper, lower]

def exactDecimal (x : Binary) : Scientific :=
  if 0 ≤ x.exponent then ⟨x.numerator, 0⟩
  else ⟨x.significand * Nat.pow 5 (-x.exponent).toNat, x.exponent⟩

/-- The same decimal without zeros at the end of its coefficient. -/
def Scientific.reduced (d : Scientific) : Scientific :=
  let zeros := ((Nat.toDigits 10 d.coefficient).reverse.takeWhile (· == '0')).length
  ⟨d.coefficient / Nat.pow 10 zeros, d.exponent + zeros⟩

/-- The decimals with one, two, up to seventeen digits next to a magnitude. -/
def candidates (x : Binary) : List Scientific :=
  (List.range 17).flatMap
    (fun n : Nat => (neighbours x (firstPlace x - (n + 1))).map Scientific.reduced)

/-- The first candidate with the given bits, or all digits if there is none. -/
def shortest (bits : Nat) (x : Binary) : Scientific :=
  ((candidates x).find? (fun d => d.bits == bits)).getD (exactDecimal x)

/-- Digits with a point at the place that the exponent asks for. -/
def Scientific.positional (d : Scientific) : List Char :=
  let digits := Nat.toDigits 10 d.coefficient
  let whole : Int := digits.length + d.exponent
  if 0 ≤ d.exponent then digits ++ List.replicate d.exponent.toNat '0'
  else if 0 < whole then digits.take whole.toNat ++ '.' :: digits.drop whole.toNat
  else '0' :: '.' :: List.replicate (-whole).toNat '0' ++ digits

/-- A magnitude with its sign; zero is written with one digit. -/
def displayFinite (bits : Nat) (x : Binary) : List Char :=
  let sign := if x.negative then ['-'] else []
  if x.significand = 0 then sign ++ ['0']
  else sign ++ (shortest (bits % Nat.pow 2 63) x).positional

def display (x : Float) : String :=
  match ofFloat x with
  | .finite value => String.ofList (displayFinite x.toBits.toNat value)
  | .infinite negative => if negative then "-inf" else "inf"
  | .undefined => "NaN"

end PixelTree.Decimal
