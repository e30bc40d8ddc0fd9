import PixelTree.Random.Generator

/-! Seeded shuffles: a chain of swaps whose partners are drawn from a stream of words.
One word serves several swaps as long as the product of their ranges fits in 32 bits.

The draws are those for fewer than `2 ^ 32 - 1` elements. More elements need ranges of 64 bits,
which have draws of their own that are left out here: ranges wrap to 32 bits instead.
-/

namespace PixelTree.Random

/-- A number below `bound`, from the high half of a product and, rarely, a second word that
refines its low half. -/
def below (bound : UInt32) (g : Generator) : UInt32 × Generator :=
  let (word, g) := g.next32
  let product := word.toUInt64 * bound.toUInt64
  let high := (product >>> 32).toUInt32
  let low := product.toUInt32
  if 0 - bound < low then
    let (word, g) := g.next32
    let refinement := (word.toUInt64 * bound.toUInt64) >>> 32
    if 0x100000000 ≤ low.toUInt64 + refinement then (high + 1, g) else (high, g)
  else (high, g)

/-- The product of consecutive factors from `next` on that keeps below 32 bits, and the first
factor left out. Thirteen factors never fit. -/
def widest (product next : Nat) : Nat → Nat × Nat
  | 0 => (product, next)
  | fuel + 1 =>
    if product * next < UInt32.size then widest (product * next) (next + 1) fuel
    else (product, next)

/-- What is left of the last drawn word, and for how many swaps. -/
structure Reserve where
  chunk : Nat
  remaining : Nat

/-- The partner of the swap at a position: a number up to that position. -/
def partner (position : Nat) (reserve : Reserve) (g : Generator)
    : Nat × Reserve × Generator :=
  let range := position + 1
  let (reserve, g) :=
    if reserve.remaining = 0 then
      let (bound, next) := widest range (range + 1) 13
      let (chunk, g) := below (UInt32.ofNat bound) g
      (Reserve.mk chunk.toNat (next - range - 1), g)
    else ({ reserve with remaining := reserve.remaining - 1 }, g)
  if reserve.remaining = 0 then (reserve.chunk, reserve, g)
  else (reserve.chunk % range, { reserve with chunk := reserve.chunk / range }, g)

def partners (position : Nat) (reserve : Reserve) (g : Generator) : Nat → List Nat
  | 0 => []
  | count + 1 =>
    let (index, reserve, g) := partner position reserve g
    index :: partners (position + 1) reserve g count

/-- Swaps each element with its partner, from a position on. -/
def applySwaps {α : Type} (xs : Array α) (position : Nat) : List Nat → Array α
  | [] => xs
  | index :: rest => applySwaps (xs.swapIfInBounds position index) (position + 1) rest

/-- The elements in the order that a seed gives them, for fewer than `2 ^ 32 - 1` elements. Whatever
their number, the order comes about by swaps. -/
def shuffle {α : Type} (seed : UInt64) (xs : Array α) : Array α :=
  if xs.size ≤ 1 then xs
  else applySwaps xs 0 (partners 0 ⟨0, 1⟩ (Generator.ofSeed seed) xs.size)

end PixelTree.Random
