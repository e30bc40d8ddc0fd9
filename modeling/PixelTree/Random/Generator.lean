/-! A stream of random words: the ChaCha function with twelve rounds, keyed by a seed.
Equal seeds give equal streams.
-/

namespace PixelTree.Random

abbrev Block := Vector UInt32 16

def rotateLeft (word amount : UInt32) : UInt32 :=
  (word <<< amount) ||| (word >>> (32 - amount))

/-- Half of a quarter round: adds, mixes and rotates by two amounts. -/
def halfRound (block : Block) (a b c d : Fin 16) (first second : UInt32) : Block :=
  let block := block.set a (block[a] + block[b])
  let block := block.set d (rotateLeft (block[d] ^^^ block[a]) first)
  let block := block.set c (block[c] + block[d])
  block.set b (rotateLeft (block[b] ^^^ block[c]) second)

def quarterRound (block : Block) (a b c d : Fin 16) : Block :=
  halfRound (halfRound block a b c d 16 12) a b c d 8 7

def doubleRound (block : Block) : Block :=
  let block := quarterRound block 0 4 8 12
  let block := quarterRound block 1 5 9 13
  let block := quarterRound block 2 6 10 14
  let block := quarterRound block 3 7 11 15
  let block := quarterRound block 0 5 10 15
  let block := quarterRound block 1 6 11 12
  let block := quarterRound block 2 7 8 13
  quarterRound block 3 4 9 14

/-- The words that a block starts from: four constants, the key, the number of the block and
two zero words. -/
def startBlock (key : Vector UInt32 8) (number : UInt64) : Block :=
  let constants : Vector UInt32 4 := #v[0x61707865, 0x3320646e, 0x79622d32, 0x6b206574]
  let position : Vector UInt32 4 := #v[number.toUInt32, (number >>> 32).toUInt32, 0, 0]
  constants ++ key ++ position

/-- The words of one block: six double rounds, added to the words that it started from. -/
def blockWords (key : Vector UInt32 8) (number : UInt64) : List UInt32 :=
  let start := startBlock key number
  let mixed := Nat.repeat doubleRound 6 start
  (Vector.zipWith (· + ·) mixed start).toList

def nextSeed (state : UInt64) : UInt64 :=
  state * 6364136223846793005 + 11634580027462260723

/-- The key word of a seed state: its high bits, mixed and rotated. -/
def seedWord (state : UInt64) : UInt32 :=
  let mixed := (((state >>> 18) ^^^ state) >>> 27).toUInt32
  let amount := (state >>> 59).toUInt32
  (mixed >>> amount) ||| (mixed <<< ((32 - amount) % 32))

def seedState (seed : UInt64) (steps : Nat) : UInt64 :=
  Nat.repeat nextSeed steps seed

/-- The key of a seed: the words of its first eight successors. -/
def seedKey (seed : UInt64) : Vector UInt32 8 :=
  Vector.ofFn (fun i => seedWord (seedState seed (i.val + 1)))

/-- A position in the stream of a key: the words left of the current block and the number of
the next one. -/
structure Generator where
  key : Vector UInt32 8
  nextBlock : UInt64
  left : List UInt32
deriving DecidableEq

namespace Generator

def ofSeed (seed : UInt64) : Generator :=
  ⟨seedKey seed, 0, []⟩

def next32 (g : Generator) : UInt32 × Generator :=
  match g.left with
  | word :: left => (word, { g with left })
  | [] =>
    match blockWords g.key g.nextBlock with
    | word :: left => (word, { g with nextBlock := g.nextBlock + 1, left })
    | [] => (0, g)

/-- The next 64-bit word: two 32-bit words, the low one first. -/
def next64 (g : Generator) : UInt64 × Generator :=
  let (low, g) := g.next32
  let (high, g) := g.next32
  (low.toUInt64 ||| (high.toUInt64 <<< 32), g)

end Generator

end PixelTree.Random
