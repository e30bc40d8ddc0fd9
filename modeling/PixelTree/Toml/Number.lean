import PixelTree.Decimal.Reader
import PixelTree.Toml.Quoted
import PixelTree.Toml.Value

/-! Numbers and moments in TOML. Digits may be grouped by single underscores. -/

namespace PixelTree.Toml.Reading

open Text Text.Reader

/-- Digits that go on, latest first. An underscore stands between two digits. -/
def groupedStep (isDigit : Char → Bool) (digits : List Char)
    : Reader (List Char ⊕ List Char) := do
  match ← peek? with
  | none => return .inr digits.reverse
  | some c =>
    if isDigit c then do return .inl ((← next) :: digits)
    else if c = '_' then do
      skip '_'
      return .inl ((← satisfying isDigit) :: digits)
    else return .inr digits.reverse

/-- At least one digit. -/
def grouped (isDigit : Char → Bool) : Reader (List Char) := do
  loop (groupedStep isDigit) [← satisfying isDigit]

def sign : Reader (List Char) := do
  match ← peek? with
  | some '+' => do skip '+'; return ['+']
  | some '-' => do skip '-'; return ['-']
  | _ => return []

/-- Digits that do not start with a zero, or a zero alone, after an optional sign. -/
def decimal : Reader (List Char) := do
  let sign ← sign
  if ← takes ['0'] then return sign ++ ['0']
  return sign ++ (← grouped Char.isDigit)

/-- Digits of a base behind the letter that announces them. -/
def inBase (base : Nat) : Reader Int := do
  let isDigit c := (Numeral.hexValue? c).any (· < base)
  let digits ← grouped isDigit
  let value := digits.foldl (fun value c => base * value + (Numeral.hexValue? c).getD 0) 0
  if value < Numeral.signedLimit then return value else failure

/-- A signed integer of 64 bits. -/
def integer : Reader Int := do
  if ← takes ['0', 'x'] then inBase 16
  else if ← takes ['0', 'o'] then inBase 8
  else if ← takes ['0', 'b'] then inBase 2
  else do
    let some value := Numeral.signed? (String.ofList (← decimal)) | failure
    return value

/-- The part behind the point. -/
def fraction : Reader (List Char) := do
  skip '.'
  return '.' :: (← grouped Char.isDigit)

def exponent : Reader (List Char) := do
  let _ ← satisfying (fun c => c == 'e' || c == 'E')
  let sign ← sign
  return 'e' :: sign ++ (← grouped Char.isDigit)

/-- The part that tells a float from an integer: a fraction, an exponent or both. -/
def scale : Reader (List Char) := do
  match ← peek? with
  | some '.' => do
    let fraction ← fraction
    return fraction ++ ((← optional? exponent).getD [])
  | _ => exponent

/-- A float in digits. One that is too great is refused, one that is too small is infinite. -/
def writtenFloat : Reader Float := do
  let whole ← decimal
  let some value := Decimal.float? (String.ofList (whole ++ (← scale))) | failure
  if value == 1 / 0 then failure
  return value

def namedFloat : Reader Float := do
  let negative := (← sign) == ['-']
  if ← takes "inf".toList then return if negative then -1 / 0 else 1 / 0
  skipAll "nan".toList
  return 0 / 0

def fixed (width : Nat) : Reader Nat := do
  return Numeral.digitsValue
    (← (List.range width).mapM (fun _ => satisfying Char.isDigit))

def twoDigits (least most : Nat) : Reader Unit := do
  let value ← fixed 2
  if value < least ∨ most < value then failure

def daysIn (year month : Nat) : Nat :=
  if month = 2 then
    if year % 4 = 0 ∧ (year % 100 ≠ 0 ∨ year % 400 = 0) then 29 else 28
  else if month ∈ [4, 6, 9, 11] then 30
  else 31

def date : Reader Unit := do
  let year ← fixed 4
  skip '-'
  let month ← fixed 2
  if month < 1 ∨ 12 < month then failure
  skip '-'
  twoDigits 1 (daysIn year month)

/-- A time of day, which a leap second may end. -/
def time : Reader Unit := do
  twoDigits 0 23
  skip ':'
  twoDigits 0 59
  skip ':'
  twoDigits 0 60
  let _ ← optional? (do
    skip '.'
    let _ ← satisfying Char.isDigit
    let _ ← span Char.isDigit)

def offset : Reader Unit := do
  match ← next with
  | 'Z' | 'z' => return ()
  | '+' | '-' => do
    twoDigits 0 23
    skip ':'
    twoDigits 0 59
  | _ => failure

def moment : Reader Unit := do
  match ← optional? date with
  | none => time
  | some () => do
    let _ ← optional? (do
      let _ ← satisfying (fun c => c == 'T' || c == 't' || c == ' ')
      time
      let _ ← optional? offset)

def number : Reader Value := do
  match ← optional? moment with
  | some () => return .moment
  | none =>
    match ← optional? (writtenFloat <|> namedFloat) with
    | some value => return .float value
    | none => return .integer (← integer)

end PixelTree.Toml.Reading
