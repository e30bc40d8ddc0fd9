import PixelTree.Decimal.Binary

/-! Spans of time, counted in nanoseconds. -/

namespace PixelTree.Time

/-- Nanoseconds in a second. -/
def perSecond : Nat := 1000000000

/-- Nanoseconds in a millisecond. -/
def perMillisecond : Nat := 1000000

/-- A span in seconds: the whole seconds and the rest are converted apart. -/
def seconds (span : Nat) : Float :=
  let whole := (UInt64.ofNat (span / perSecond)).toFloat
  let rest := (UInt64.ofNat (span % perSecond)).toFloat
  whole + rest / 1000000000

/-- The span nearest to a number of seconds, a half going to the even neighbour. What is no
positive number of seconds is no time. -/
def ofSeconds (x : Float) : Nat :=
  match Decimal.ofFloat x with
  | .finite value =>
    if value.negative then 0
    else Decimal.roundHalfEven (value.numerator * perSecond) value.denominator
  | _ => 0

end PixelTree.Time
