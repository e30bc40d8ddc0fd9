import PixelTree.Device.Memory
import PixelTree.Device.Rehearsal
import PixelTree.Kinet.Output
import PixelTree.Remap.Table
import PixelTree.Sparkle

/-! Trees of pixels. A leaf is a device; a list puts its members one after the other; every other
node is a filter around one inner node. A tree is read and written like one strip.
-/

namespace PixelTree

/-- A node of a tree. -/
inductive Node where
  /-- A device without hardware. -/
  | null (device : MemoryDevice)
  /-- A string of lights on a supply. -/
  | ck (output : Kinet.Output)
  /-- A device that rehearses failures. -/
  | tap (device : Rehearsal)
  /-- Members one after the other, their numbers of pixels, and the nanoseconds to wait
  between the flushes of two of them. -/
  | list (spacing : Nat) (counts : List Nat) (members : List Node)
  /-- The inner node in reverse. -/
  | flip (inner : Node)
  /-- The inner node renumbered by a table. -/
  | remap (table : Remap.Table) (inner : Node)
  /-- The inner node, painted in one color when it is flushed. -/
  | solid (color : Color) (inner : Node)
  /-- The inner node, painted from one color to another when it is flushed. -/
  | gradient (start goal : Color) (inner : Node)
  /-- The inner node with sparkling pixels. -/
  | sparkle (state : Sparkle) (inner : Node)
  /-- The inner node without its margins, which a flush paints red and green. -/
  | nav (margin : Nat) (inner : Node)

instance : Inhabited Node := ⟨.null (MemoryDevice.fresh 0)⟩

namespace Node

-----------------------------------------------------------------------------------------
-- Places
-----------------------------------------------------------------------------------------

/-- The member that an index of a list belongs to, and the index within that member. -/
def locate : List Nat → Nat → Option (Nat × Nat)
  | [], _ => none
  | count :: counts, index =>
    if index < count then some (0, index)
    else (locate counts (index - count)).map (fun place => (place.1 + 1, place.2))

def opposite? (count index : Nat) : Option Nat :=
  if index < count then some (count - 1 - index) else none

/-- The number of pixels between two margins. The double of a margin is held at the greatest
word, which no strip exceeds. -/
def visibleCount (total margin : Nat) : Nat :=
  total - min (2 * margin) (Numeral.wordLimit - 1)

def count : Node → Nat
  | .null device => device.strip.size
  | .ck output => output.strip.size
  | .tap device => device.strip.size
  | .list _ counts _ => counts.foldr (· + ·) 0
  | .flip inner => inner.count
  | .remap table _ => table.size
  | .solid _ inner => inner.count
  | .gradient _ _ inner => inner.count
  | .sparkle _ inner => inner.count
  | .nav margin inner => visibleCount inner.count margin

-----------------------------------------------------------------------------------------
-- Pixels
-----------------------------------------------------------------------------------------

mutual
/-- The color at an index, black past the end. -/
def get : Node → Nat → Color
  | .null device, index => device.strip.get index
  | .ck output, index => output.strip.get index
  | .tap device, index => device.strip.get index
  | .list _ counts members, index =>
    match locate counts index with
    | some (member, index) => getMember members member index
    | none => Color.black
  | .flip inner, index =>
    match opposite? inner.count index with
    | some index => inner.get index
    | none => Color.black
  | .remap table inner, index =>
    match table.index? index with
    | some index => inner.get index
    | none => Color.black
  | .solid _ inner, index => inner.get index
  | .gradient _ _ inner, index => inner.get index
  | .sparkle _ inner, index => inner.get index
  | .nav margin inner, index =>
    if index < visibleCount inner.count margin then inner.get (index + margin)
    else Color.black

def getMember : List Node → Nat → Nat → Color
  | [], _, _ => Color.black
  | node :: _, 0, index => node.get index
  | _ :: rest, member + 1, index => getMember rest member index
end

mutual
/-- The node with another color at an index; nothing changes past the end. -/
def set : Node → Nat → Color → Node
  | .null device, index, color =>
    .null { device with strip := device.strip.set index color }
  | .ck output, index, color =>
    .ck { output with strip := output.strip.set index color }
  | .tap device, index, color =>
    .tap { device with strip := device.strip.set index color }
  | .list spacing counts members, index, color =>
    match locate counts index with
    | some (member, index) => .list spacing counts (setMember members member index color)
    | none => .list spacing counts members
  | .flip inner, index, color =>
    match opposite? inner.count index with
    | some index => .flip (inner.set index color)
    | none => .flip inner
  | .remap table inner, index, color =>
    match table.index? index with
    | some index => .remap table (inner.set index color)
    | none => .remap table inner
  | .solid paint inner, index, color => .solid paint (inner.set index color)
  | .gradient start goal inner, index, color =>
    .gradient start goal (inner.set index color)
  | .sparkle state inner, index, color => .sparkle state (inner.set index color)
  | .nav margin inner, index, color =>
    if index < visibleCount inner.count margin then
      .nav margin (inner.set (index + margin) color)
    else .nav margin inner

/-- Several nodes with another color at an index of one of them. -/
def setMember : List Node → Nat → Nat → Color → List Node
  | [], _, _, _ => []
  | node :: rest, 0, index, color => node.set index color :: rest
  | node :: rest, member + 1, index, color =>
    node :: setMember rest member index color
end

def writeFrom (node : Node) (index : Nat) : List Color → Node
  | [] => node
  | color :: rest => (node.set index color).writeFrom (index + 1) rest

/-- The node with one color written to each of some indices. -/
def setEach (node : Node) (indices : List Nat) (color : Color) : Node :=
  indices.foldl (fun node index => node.set index color) node

def setAll (node : Node) (color : Color) : Node :=
  node.setEach (List.range node.count) color

def clear (node : Node) : Node :=
  node.setAll Color.black

/-- The visible colors in order. -/
def snapshot (node : Node) : List Color :=
  (List.range node.count).map node.get

/-- Visits some indices in order. The visitor sees the color at each index together with a
state of its own, and answers with the color that is written back. -/
def visitEach {σ : Type} (visitor : Nat → Color → σ → Color × σ)
    : List Nat → Node → σ → Node × σ
  | [], node, state => (node, state)
  | index :: rest, node, state =>
    let (color, state) := visitor index (node.get index) state
    visitEach visitor rest (node.set index color) state

/-- Visits every pixel in index order. -/
def visit {σ : Type} (visitor : Nat → Color → σ → Color × σ) (node : Node) (state : σ)
    : Node × σ :=
  visitEach visitor (List.range node.count) node state

-----------------------------------------------------------------------------------------
-- Descriptions and faults
-----------------------------------------------------------------------------------------

mutual
def describe : Node → String
  | .null device => "null:" ++ Numeral.decimal device.strip.size
  | .ck output => "ck:" ++ output.address.display
  | .tap device => "tap:" ++ device.display
  | .list _ _ members => "[" ++ ", ".intercalate (describeAll members) ++ "]"
  | .flip inner => "flip|" ++ inner.describe
  | .remap table inner => table.rule.display ++ "|" ++ inner.describe
  | .solid color inner => "solid:" ++ color.display ++ "|" ++ inner.describe
  | .gradient start goal inner =>
    "gradient:" ++ start.display ++ "," ++ goal.display ++ "|" ++ inner.describe
  | .sparkle state inner => state.display ++ "|" ++ inner.describe
  | .nav margin inner => "nav:" ++ Numeral.decimal margin ++ "|" ++ inner.describe

def describeAll : List Node → List String
  | [] => []
  | node :: rest => node.describe :: describeAll rest
end

mutual
/-- The last fault of the first leaf that has one. -/
def lastFault : Node → Option DeviceFault
  | .null _ => none
  | .ck output => output.lastFault
  | .tap device => device.lastFault
  | .list _ _ members => lastFaultOf members
  | .flip inner => inner.lastFault
  | .remap _ inner => inner.lastFault
  | .solid _ inner => inner.lastFault
  | .gradient _ _ inner => inner.lastFault
  | .sparkle _ inner => inner.lastFault
  | .nav _ inner => inner.lastFault

/-- The last fault of the first of several nodes that has one. -/
def lastFaultOf : List Node → Option DeviceFault
  | [] => none
  | node :: rest => node.lastFault <|> lastFaultOf rest
end

-----------------------------------------------------------------------------------------
-- Making nodes
-----------------------------------------------------------------------------------------

/-- A device without hardware. -/
def ofCount (count : Nat) : Node :=
  .null (MemoryDevice.fresh count)

/-- A list of members, whose numbers of pixels are kept. -/
def ofMembers (spacing : Nat) (members : List Node) : Node :=
  .list spacing (members.map count) members

def remapped (rule : Remap.Rule) (inner : Node) : Except Remap.Rule.Fault Node := do
  return .remap (← Remap.Table.make rule inner.count) inner

def sparkling (color : Color) (onMean offMean : Nat) (seed : UInt64) (inner : Node) : Node :=
  .sparkle (Sparkle.start color onMean offMean seed inner.count) inner

end Node

end PixelTree
