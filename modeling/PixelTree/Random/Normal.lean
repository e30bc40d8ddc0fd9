import PixelTree.Random.Generator

/-! Normally distributed numbers, drawn by rejection from 256 layers of equal area. -/

namespace PixelTree.Random

def tailStart : Float := 3.654152885361008796

/-- The area of each layer. -/
def layerArea : Float := 0.00492867323399

def bell (x : Float) : Float :=
  Float.exp (-(x * x) / 2)

def nextEdge (x : Float) : Float :=
  Float.sqrt (-2 * Float.log (layerArea / x + bell x))

/-- Edges of the layers, widest first. -/
def edges : FloatArray :=
  let inner := Nat.fold 254 (fun _ _ found => found.push (nextEdge (found.back!)))
    #[tailStart]
  ⟨#[3.910757959537090045] ++ inner ++ #[0]⟩

def heights : FloatArray :=
  ⟨edges.data.map bell⟩

/-- A number from two up to four with the high bits of a word as its fraction. -/
def fromTwo (word : UInt64) : Float :=
  Float.ofBits ((word >>> 12) ||| 0x4000000000000000)

/-- A positive number up to one with the high bits of a word as its fraction. -/
def openUnit (word : UInt64) : Float :=
  Float.ofBits ((word >>> 12) ||| 0x3FF0000000000000) - (1 - 1 / 9007199254740992)

/-- A number from zero up to one with 53 bits of a word. -/
def halfOpenUnit (word : UInt64) : Float :=
  (word >>> 11).toFloat / 9007199254740992

/-- A place in the tail, by rejection; the fuel bounds the number of attempts. -/
def tail (x y : Float) (g : Generator) : Nat → Float × Generator
  | 0 => (x, g)
  | fuel + 1 =>
    if -2 * y < x * x then
      let (first, g) := g.next64
      let (second, g) := g.next64
      tail (Float.log (openUnit first) / tailStart) (Float.log (openUnit second)) g fuel
    else (x, g)

/-- A number with mean zero and deviation one, by rejection; about one attempt in eighty is
rejected, and the fuel bounds their number. -/
def standardNormalFrom (g : Generator) : Nat → Float × Generator
  | 0 => (0, g)
  | fuel + 1 =>
    let (word, g) := g.next64
    let layer := (word &&& 0xFF).toNat
    let u := fromTwo word - 3
    let x := u * edges.get! layer
    if x.abs < edges.get! (layer + 1) then (x, g)
    else if layer = 0 then
      let (far, g) := tail 1 0 g 1000
      (if u < 0 then far - tailStart else tailStart - far, g)
    else
      let (word, g) := g.next64
      let low := heights.get! (layer + 1)
      let height := low + (heights.get! layer - low) * halfOpenUnit word
      if height < bell x then (x, g) else standardNormalFrom g fuel

/-- A number with mean zero and deviation one. -/
def standardNormal (g : Generator) : Float × Generator :=
  standardNormalFrom g 1000

def normal (mean deviation : Float) (g : Generator) : Float × Generator :=
  let (score, g) := standardNormal g
  (mean + deviation * score, g)

end PixelTree.Random
