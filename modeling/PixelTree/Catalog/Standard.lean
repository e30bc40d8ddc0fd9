import PixelTree.Catalog.Basic
import PixelTree.Decimal.Reader

/-! The types of devices and filters that come with the library. -/

namespace PixelTree

namespace Arguments

def requireCount (least most : Nat) (args : List String) : Except ArgumentFault Unit :=
  if args.length < least ∨ most < args.length then
    throw (.arity least most args.length)
  else return ()

/-- Reads an argument that may be quoted and padded with blanks; a fault shows it as it is. -/
def read {α : Type} (parse? : String → Option α) (what argument : String)
    : Except ArgumentFault α :=
  (parse? (Text.trim (Text.unquote argument))).elim (throw (.bad what argument)) pure

/-- Reads an argument that may be missing. -/
def readOr {α : Type} (parse? : String → Option α) (what : String) (default : α)
    : Option String → Except ArgumentFault α
  | some argument => read parse? what argument
  | none => return default

def word (what argument : String) : Except ArgumentFault Nat :=
  read Numeral.word? what argument

/-- Reads a color that may be quoted. -/
def color (argument : String) : Except ArgumentFault Color :=
  (Color.parse (Text.unquote argument)).mapError .color

/-- Reads a seed, or draws one if none is given. -/
def seed : Option String → Making UInt64
  | some argument => do return UInt64.ofNat (← word "seed" argument)
  | none => do
    let (seed, supply) := (← get).draw
    set supply
    return seed

end Arguments

namespace Standard

open Arguments

def remap (rule : Remap.Rule) (inner : Node) : Making Node :=
  liftM ((Node.remapped rule inner).mapError ArgumentFault.rule)

def null : List String → Making Node
  | [count] => do
    let count ← (Numeral.word? (Text.trim count)).elim (throw (.bad "count" count)) pure
    return Node.ofCount count
  | _ => throw .oneCount

def ck : List String → Making Node
  | [address] => do
    let address ← (Kinet.Address.parse address).mapError ArgumentFault.address
    return .ck (Kinet.Output.fresh address)
  | args => throw (.oneAddress args.length)

/-- No argument. -/
def flip (args : List String) (inner : Node) : Making Node := do
  requireCount 0 0 args
  return .flip inner

/-- An optional seed. -/
def random (args : List String) (inner : Node) : Making Node := do
  requireCount 0 1 args
  let seed ← seed args[0]?
  remap (.random seed) inner

def skip (args : List String) (inner : Node) : Making Node := do
  requireCount 1 1 args
  let stride ← word "stride" (args[0]?.getD "")
  remap (.skip stride) inner

/-- An offset of either sign, taken modulo the number of pixels. -/
def shift (args : List String) (inner : Node) : Making Node := do
  requireCount 1 1 args
  let offset ← read Numeral.signed? "offset" (args[0]?.getD "")
  remap (.shift (offset % (max inner.count 1 : Nat)).toNat) inner

def rotate (args : List String) (inner : Node) : Making Node := do
  requireCount 1 1 args
  let speed ← read Decimal.float? "speed" (args[0]?.getD "")
  remap (.rotate speed) inner

/-- A speed, and an optional number of strip lengths between turns. -/
def bounce (args : List String) (inner : Node) : Making Node := do
  requireCount 1 2 args
  let speed ← read Decimal.float? "speed" (args[0]?.getD "")
  let after ← readOr Numeral.word? "after" 1 args[1]?
  remap (.bounce speed after) inner

def solid (args : List String) (inner : Node) : Making Node := do
  requireCount 1 1 args
  return .solid (← color (args[0]?.getD "")) inner

def gradient (args : List String) (inner : Node) : Making Node := do
  requireCount 2 2 args
  let start ← color (args[0]?.getD "")
  let goal ← color (args[1]?.getD "")
  return .gradient start goal inner

/-- A color, optional mean times in milliseconds and an optional seed. -/
def sparkle (args : List String) (inner : Node) : Making Node := do
  requireCount 1 4 args
  let color ← color (args[0]?.getD "")
  let onMean ← readOr Numeral.word? "on time" Sparkle.defaultOnMean args[1]?
  let offMean ← readOr Numeral.word? "off time" Sparkle.defaultOffMean args[2]?
  let seed ← seed args[3]?
  return Node.sparkling color onMean offMean seed inner

def nav (args : List String) (inner : Node) : Making Node := do
  requireCount 1 1 args
  return .nav (← word "margin" (args[0]?.getD "")) inner

end Standard

namespace Catalog

/-- The device without hardware, and the filters. -/
def builtIn : Catalog :=
  [ ⟨"null", .device Standard.null, "count",
      "In-memory device that keeps the last flushed frame"⟩,
    ⟨"flip", .filter Standard.flip, "", "Reverse pixel order"⟩,
    ⟨"random", .filter Standard.random, "[seed]",
      "Shuffle pixel order once, with an optional fixed seed"⟩,
    ⟨"skip", .filter Standard.skip, "stride",
      "Interleave pixels: every stride-th pixel, then the next offset"⟩,
    ⟨"shift", .filter Standard.shift, "offset",
      "Shift pixel order by a fixed offset, wrapping at the end"⟩,
    ⟨"rotate", .filter Standard.rotate, "speed",
      "Rotate continuously, speed in strip lengths per second"⟩,
    ⟨"bounce", .filter Standard.bounce, "speed[,after]",
      "Slide back and forth, reversing after `after` strip lengths"⟩,
    ⟨"solid", .filter Standard.solid, "color", "Paint every pixel one color at flush"⟩,
    ⟨"gradient", .filter Standard.gradient, "from,to",
      "Paint an HSV gradient across the strip at flush"⟩,
    ⟨"sparkle", .filter Standard.sparkle, "color[,on_ms[,off_ms[,seed]]]",
      "Randomly flash pixels in a color over whatever is below"⟩,
    ⟨"nav", .filter Standard.nav, "margin",
      "Red and green navigation lights on the end pixels, hidden from the visible range"⟩ ]

def supplies : Catalog :=
  [ ⟨"ck", .device Standard.ck, "ip[/port][(count)]",
      "ColorKinetics supply over KiNET; list several as [ck:a, ck:b]"⟩ ]

def standard : Catalog :=
  builtIn ++ supplies

end Catalog

end PixelTree
