/-! Numbers written in digits.
Reading is bounded: a numeral whose value is out of the reader's range is refused, whatever
its length. Leading zeros are allowed and a leading plus sign is always accepted.
-/

namespace PixelTree.Numeral

/-- One more than the greatest 64-bit word. -/
def wordLimit : Nat := UInt64.size

/-- One more than the greatest signed 64-bit number. -/
def signedLimit : Nat := UInt64.size / 2

def digitValue (c : Char) : Nat :=
  c.toNat - '0'.toNat

/-- The value of a row of decimal digits, first digit highest. -/
def digitsValue (cs : List Char) : Nat :=
  cs.foldl (fun value c => 10 * value + digitValue c) 0

/-- A row of digits is not empty and holds nothing else. -/
def digits? (cs : List Char) : Option Nat :=
  if cs ≠ [] ∧ cs.all Char.isDigit then some (digitsValue cs) else none

/-- Digits after an optional plus sign. -/
def plusDigits? : List Char → Option Nat
  | '+' :: cs => digits? cs
  | cs => digits? cs

def natural? (limit : Nat) (s : String) : Option Nat :=
  (plusDigits? s.toList).filter (· < limit)

def word? (s : String) : Option Nat :=
  natural? wordLimit s

/-- A signed 64-bit number; the least one has no positive partner. -/
def signed? (s : String) : Option Int :=
  match s.toList with
  | '-' :: cs => ((digits? cs).filter (· ≤ signedLimit)).map (fun n => -(n : Int))
  | cs => ((plusDigits? cs).filter (· < signedLimit)).map (fun n => (n : Int))

def hexValue? (c : Char) : Option Nat :=
  if c.isDigit then some (digitValue c)
  else if 'a' ≤ c ∧ c ≤ 'f' then some (c.toNat - 'a'.toNat + 10)
  else if 'A' ≤ c ∧ c ≤ 'F' then some (c.toNat - 'A'.toNat + 10)
  else none

/-- A byte from two characters: two digits, or one digit after a plus sign. -/
def hexPair? (high low : Char) : Option UInt8 :=
  if high = '+' then (hexValue? low).map UInt8.ofNat
  else do
    let h ← hexValue? high
    let l ← hexValue? low
    return UInt8.ofNat (16 * h + l)

/-- A byte as two small hexadecimal digits. -/
def hexByte (b : UInt8) : List Char :=
  [Nat.digitChar (b.toNat / 16), Nat.digitChar (b.toNat % 16)]

/-- Bytes as small hexadecimal digits, two for each. -/
def hexBytes (bytes : List UInt8) : String :=
  String.ofList (bytes.flatMap hexByte)

/-- A number in small hexadecimal digits, padded with zeros up to a width. -/
def hexPadded (width n : Nat) : String :=
  let digits := Nat.toDigits 16 n
  String.ofList (List.replicate (width - digits.length) '0' ++ digits)

/-- A natural number in decimal digits without leading zeros. -/
def decimal (n : Nat) : String :=
  String.ofList (Nat.toDigits 10 n)

/-- An integer, a minus sign in front when it is negative. -/
def decimalInt : Int → String
  | .ofNat n => decimal n
  | .negSucc n => "-" ++ decimal (n + 1)

end PixelTree.Numeral
