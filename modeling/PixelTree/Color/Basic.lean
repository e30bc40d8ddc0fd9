import PixelTree.Numeral

/-! Colors with three channels, nominally between zero and one, and their 8-bit levels. -/

namespace PixelTree

/-- A color of red, green and blue channels. -/
structure Color where
  red : Float32
  green : Float32
  blue : Float32

namespace Color

def black : Color := ⟨0, 0, 0⟩
def white : Color := ⟨1, 1, 1⟩
def pureRed : Color := ⟨1, 0, 0⟩
def pureGreen : Color := ⟨0, 1, 0⟩
def pureBlue : Color := ⟨0, 0, 1⟩

instance : Inhabited Color := ⟨black⟩

/-- A value held between zero and one; an undefined value stays undefined. -/
def unit (v : Float32) : Float32 :=
  if v < 0 then 0 else if 1 < v then 1 else v

/-- The 8-bit level of a channel: the nearest of 256 steps, the end steps outside the unit
range, and zero for an undefined value. -/
def level (v : Float32) : UInt8 :=
  (unit v * 255 + 0.5).toUInt8

def channel (level : UInt8) : Float32 :=
  level.toFloat32 / 255

def ofLevels (red green blue : UInt8) : Color :=
  ⟨channel red, channel green, channel blue⟩

/-- The three 8-bit levels, red first. -/
def levels (c : Color) : List UInt8 :=
  [level c.red, level c.green, level c.blue]

/-- Straight blend of two values: zero gives the first and one the second. -/
def blendChannel (a b t : Float32) : Float32 :=
  a + (b - a) * t

def blend (a b : Color) (t : Float32) : Color :=
  ⟨blendChannel a.red b.red t, blendChannel a.green b.green t,
    blendChannel a.blue b.blue t⟩

def display (c : Color) : String :=
  "#" ++ Numeral.hexBytes c.levels

end Color

end PixelTree
