import PixelTree.Color.Basic

/-! Strips of pixels. Reading past the end gives black and writing past the end does nothing. -/

namespace PixelTree

/-- A row of pixels. -/
structure Strip where
  pixels : Array Color

namespace Strip

def dark (count : Nat) : Strip :=
  ⟨Array.replicate count Color.black⟩

def size (strip : Strip) : Nat :=
  strip.pixels.size

def get (strip : Strip) (index : Nat) : Color :=
  strip.pixels[index]?.getD Color.black

def set (strip : Strip) (index : Nat) (color : Color) : Strip :=
  ⟨strip.pixels.setIfInBounds index color⟩

/-- The colors in order. -/
def toList (strip : Strip) : List Color :=
  strip.pixels.toList

/-- The 8-bit levels of all pixels in order, three for each. -/
def levels (strip : Strip) : List UInt8 :=
  strip.toList.flatMap Color.levels

end Strip

end PixelTree
