import PixelTree.Color.Basic
import PixelTree.Decimal.Binary

/-! Hue, saturation and value, and blends that go the short way around the hue circle. -/

namespace PixelTree.Color

/-- The part of `x` that a whole number of turns leaves over, with the sign of `x`.
It is computed without rounding: the remainder of a finite value is a value of the format. -/
def leftover (x : Float32) (turn : Nat) : Float32 :=
  match Decimal.ofFloat32 x with
  | .finite value =>
    let rest := value.numerator % (turn * value.denominator)
    let magnitude := (Float32.ofNat rest).scaleB (min value.exponent 0)
    if value.negative then -magnitude else magnitude
  | _ => 0 / 0

/-- The leftover moved up by one turn when it is below zero. -/
def wrapped (x : Float32) (turn : Nat) : Float32 :=
  let rest := leftover x turn
  if rest < 0 then rest + Float32.ofNat turn else rest

/-- The greater of two values, the defined one if only one is, the first of equal ones. -/
def greater (a b : Float32) : Float32 :=
  if a.isNaN then b else if a < b then b else a

/-- The lesser of two values, the defined one if only one is, the first of equal ones. -/
def lesser (a b : Float32) : Float32 :=
  if a.isNaN then b else if b < a then b else a

/-- The distance from one to the next greater value of the format. -/
def leastStep : Float32 := Float32.ofBits 0x34000000

/-- Hue, saturation and value of a color. -/
structure Hsv where
  hue : Float32
  saturation : Float32
  value : Float32

/-- The hue counts sixths of the circle from the greatest channel; a color whose channels
hardly differ has hue zero. -/
def toHsv (c : Color) : Hsv :=
  let most := greater (greater c.red c.green) c.blue
  let least := lesser (lesser c.red c.green) c.blue
  let span := most - least
  let saturation := if 0 < most then span / most else 0
  let hue :=
    if span ≤ leastStep then 0
    else if most == c.red then wrapped ((c.green - c.blue) / span) 6 / 6
    else if most == c.green then ((c.blue - c.red) / span + 2) / 6
    else ((c.red - c.green) / span + 4) / 6
  ⟨hue, saturation, most⟩

/-- The color of a hue, taken modulo one full turn, with the given saturation and value. -/
def ofHsv (hsv : Hsv) : Color :=
  let sixths := wrapped hsv.hue 1 * 6
  let sector := sixths.floor
  let part := sixths - sector
  let v := hsv.value
  let s := hsv.saturation
  let p := v * (1 - s)
  let q := v * (1 - s * part)
  let t := v * (1 - s * (1 - part))
  match sector.toUInt8 with
  | 0 => ⟨v, t, p⟩
  | 1 => ⟨q, v, p⟩
  | 2 => ⟨p, v, t⟩
  | 3 => ⟨p, q, v⟩
  | 4 => ⟨t, p, v⟩
  | _ => ⟨v, p, q⟩

/-- Blend through hue, saturation and value on the short way around the circle. An end
without saturation has no hue of its own and takes the hue of the other end. -/
def hueBlend (a b : Color) (t : Float32) : Color :=
  let start := a.toHsv
  let goal := b.toHsv
  let startHue := if start.saturation ≤ leastStep then goal.hue else start.hue
  let goalHue := if goal.saturation ≤ leastStep then startHue else goal.hue
  let direct := goalHue - startHue
  let turn :=
    if 0.5 < direct then direct - 1
    else if direct < -0.5 then direct + 1
    else direct
  ofHsv
    ⟨startHue + turn * t, blendChannel start.saturation goal.saturation t,
      blendChannel start.value goal.value t⟩

end PixelTree.Color
