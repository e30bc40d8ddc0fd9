import PixelTree.Decimal.Nearest
import PixelTree.Numeral
import PixelTree.Text.Letters

/-! Reading 64-bit numbers: an optional sign, then digits with an optional point and exponent,
or a word for an infinite or undefined number.
-/

namespace PixelTree.Decimal

def spanDigits (cs : List Char) : List Char × List Char :=
  (cs.takeWhile Char.isDigit, cs.dropWhile Char.isDigit)

/-- An exponent in digits after an optional sign. -/
def exponent? : List Char → Option Int
  | '-' :: cs => (Numeral.digits? cs).map (fun n => -(n : Int))
  | cs => (Numeral.plusDigits? cs).map (fun n => (n : Int))

/-- The exponent behind the digits; without its letter nothing may follow. -/
def trailer? : List Char → Option Int
  | [] => some 0
  | c :: cs => if c = 'e' ∨ c = 'E' then exponent? cs else none

/-- A decimal without sign. At least one digit stands before or after the point. -/
def scientific? (cs : List Char) : Option Scientific :=
  let (whole, rest) := spanDigits cs
  let (fraction, rest) :=
    match rest with
    | '.' :: rest => spanDigits rest
    | rest => ([], rest)
  if whole = [] ∧ fraction = [] then none
  else
    (trailer? rest).map
      (fun e => ⟨Numeral.digitsValue (whole ++ fraction), e - fraction.length⟩)

def word? (negative : Bool) (cs : List Char) : Option Float :=
  let word := String.ofList cs
  if Text.sameWord word "inf" ∨ Text.sameWord word "infinity" then
    some (if negative then -1 / 0 else 1 / 0)
  else if Text.sameWord word "nan" then some (0 / 0)
  else none

/-- A number without its sign. -/
def unsigned? (negative : Bool) (cs : List Char) : Option Float :=
  match scientific? cs with
  | some d => some (d.toFloat negative)
  | none => word? negative cs

/-- The 64-bit number nearest to a text. -/
def float? (s : String) : Option Float :=
  match s.toList with
  | '-' :: cs => unsigned? true cs
  | '+' :: cs => unsigned? false cs
  | cs => unsigned? false cs

end PixelTree.Decimal
