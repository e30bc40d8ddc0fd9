import PixelTree.Color.Hue
import PixelTree.Node.Basic

/-! Flushing a tree: filters paint what is theirs, outer ones first, and every leaf is given its
frame, whatever becomes of the others.
-/

namespace PixelTree.Node

-----------------------------------------------------------------------------------------
-- Painting
-----------------------------------------------------------------------------------------

/-- The color at an index of a gradient over `count` pixels. -/
def gradientColor (start goal : Color) (count index : Nat) : Color :=
  let last := (UInt64.ofNat (max (count - 1) 1)).toFloat32
  start.hueBlend goal ((UInt64.ofNat index).toFloat32 / last)

def paintGradient (start goal : Color) (inner : Node) : Node :=
  inner.writeFrom 0 ((List.range inner.count).map (gradientColor start goal inner.count))

/-- How many pixels at the start of a strip are red; where the margins overlap, the red one
takes the odd pixel. -/
def redCount (total margin : Nat) : Nat :=
  min margin ((total + 1) / 2)

def greenCount (total margin : Nat) : Nat :=
  min margin (total - redCount total margin)

def paintMargins (margin : Nat) (inner : Node) : Node :=
  let total := inner.count
  let red := List.range (redCount total margin)
  let green := (List.range (greenCount total margin)).map (fun k => total - 1 - k)
  (inner.setEach red Color.pureRed).setEach green Color.pureGreen

/-- The inner node with colors written to consecutive indices of a table. -/
def writeThrough (table : Remap.Table) (inner : Node) (index : Nat) : List Color → Node
  | [] => inner
  | color :: rest =>
    match table.index? index with
    | some place => writeThrough table (inner.set place color) (index + 1) rest
    | none => writeThrough table inner (index + 1) rest

/-- The inner node that shows through a new table what it showed through the old one. -/
def carry (old new : Remap.Table) (inner : Node) : Node :=
  writeThrough new inner 0 (Node.remap old inner).snapshot

def paintLit (sparkle : Sparkle) (inner : Node) : Node :=
  inner.setEach sparkle.litIndices sparkle.color

/-- A sparkle at a time, and the inner node with its lit pixels painted. -/
def sparkleAt (now : Nat) (sparkle : Sparkle) (inner : Node) : Sparkle × Node :=
  let sparkle := sparkle.advance now
  (sparkle, paintLit sparkle inner)

-----------------------------------------------------------------------------------------
-- Weights
-----------------------------------------------------------------------------------------

mutual
def weight : Node → Nat
  | .null _ | .ck _ | .tap _ => 1
  | .list _ _ members => weightOf members + 1
  | .flip inner => inner.weight + 1
  | .remap _ inner => inner.weight + 1
  | .solid _ inner => inner.weight + 1
  | .gradient _ _ inner => inner.weight + 1
  | .sparkle _ inner => inner.weight + 1
  | .nav _ inner => inner.weight + 1

/-- The number of nodes of several trees, and one for each tree. -/
def weightOf : List Node → Nat
  | [] => 0
  | node :: rest => node.weight + weightOf rest + 1
end

mutual
theorem weight_set (node : Node) (index : Nat) (color : Color)
    : (node.set index color).weight = node.weight := by
  cases node with
  | null device => rfl
  | ck output => rfl
  | tap device => rfl
  | list spacing counts members =>
      simp only [set]
      split
      · simp only [weight, weightOf_setMember members]
      · rfl
  | flip inner =>
      simp only [set]
      split
      · simp only [weight, weight_set inner]
      · rfl
  | remap table inner =>
      simp only [set]
      split
      · simp only [weight, weight_set inner]
      · rfl
  | solid paint inner => simp only [set, weight, weight_set inner]
  | gradient start goal inner => simp only [set, weight, weight_set inner]
  | sparkle state inner => simp only [set, weight, weight_set inner]
  | nav margin inner =>
      simp only [set]
      split
      · simp only [weight, weight_set inner]
      · rfl

theorem weightOf_setMember (members : List Node) (member index : Nat) (color : Color)
    : weightOf (setMember members member index color) = weightOf members := by
  cases members with
  | nil => rfl
  | cons node rest =>
      cases member with
      | zero => simp only [setMember, weightOf, weight_set node]
      | succ member => simp only [setMember, weightOf, weightOf_setMember rest]
end

theorem weight_writeFrom (node : Node) (index : Nat) (colors : List Color)
    : (node.writeFrom index colors).weight = node.weight := by
  induction colors generalizing node index with
  | nil => rfl
  | cons color rest ih => rw [writeFrom, ih, weight_set]

theorem weight_writeThrough (table : Remap.Table) (inner : Node) (index : Nat)
    (colors : List Color)
    : (writeThrough table inner index colors).weight = inner.weight := by
  induction colors generalizing inner index with
  | nil => rfl
  | cons color rest ih =>
      unfold writeThrough
      split
      · rw [ih, weight_set]
      · rw [ih]

theorem weight_carry (old new : Remap.Table) (inner : Node)
    : (carry old new inner).weight = inner.weight :=
  weight_writeThrough new inner _ _

theorem weight_setEach (node : Node) (indices : List Nat) (color : Color)
    : (node.setEach indices color).weight = node.weight := by
  unfold setEach
  induction indices generalizing node with
  | nil => rfl
  | cons index rest ih => rw [List.foldl_cons, ih, weight_set]

theorem weight_setAll (node : Node) (color : Color)
    : (node.setAll color).weight = node.weight :=
  weight_setEach node _ color

theorem weight_paintGradient (start goal : Color) (inner : Node)
    : (paintGradient start goal inner).weight = inner.weight :=
  weight_writeFrom inner _ _

theorem weight_paintMargins (margin : Nat) (inner : Node)
    : (paintMargins margin inner).weight = inner.weight := by
  simp only [paintMargins, weight_setEach]

theorem weight_paintLit (sparkle : Sparkle) (inner : Node)
    : (paintLit sparkle inner).weight = inner.weight :=
  weight_setEach inner _ _

theorem weight_sparkleAt (now : Nat) (sparkle : Sparkle) (inner : Node)
    : (sparkleAt now sparkle inner).2.weight = inner.weight :=
  weight_paintLit _ inner

-----------------------------------------------------------------------------------------
-- Flushing
-----------------------------------------------------------------------------------------

/-- The fault of the first of two flushes, or else that of the second. -/
def firstFault (first second : Except DeviceFault Unit) : Except DeviceFault Unit :=
  match first with
  | .ok () => second
  | .error fault => .error fault

variable {m : Type → Type} [Monad m]

mutual
/-- Paints and sends the frames of all leaves, and returns the first fault. -/
def flush (around : Surroundings m) : Node → m (Node × Except DeviceFault Unit)
  | .null device => return (.null device.flush, .ok ())
  | .ck output => do
    let (output, result) ← output.flush around.toOutbound
    return (.ck output, result)
  | .tap device => do
    let (device, result) ← device.flush around
    return (.tap device, result)
  | .list spacing counts members => do
    let (members, result) ← flushMembers around spacing members
    return (.list spacing counts members, result)
  | .flip inner => do
    let (inner, result) ← inner.flush around
    return (.flip inner, result)
  | .remap table inner =>
    if table.rule.moves then do
      let next := table.atTime (← around.now)
      let (inner, result) ← (carry table next inner).flush around
      return (.remap next inner, result)
    else do
      let (inner, result) ← inner.flush around
      return (.remap table inner, result)
  | .solid color inner => do
    let (inner, result) ← (inner.setAll color).flush around
    return (.solid color inner, result)
  | .gradient start goal inner => do
    let (inner, result) ← (paintGradient start goal inner).flush around
    return (.gradient start goal inner, result)
  | .sparkle state inner => do
    let shown := sparkleAt (← around.now) state inner
    let (inner, result) ← shown.2.flush around
    return (.sparkle shown.1 inner, result)
  | .nav margin inner => do
    let (inner, result) ← (paintMargins margin inner).flush around
    return (.nav margin inner, result)
termination_by node => node.weight
decreasing_by
  all_goals
    simp only [weight, weight_setAll, weight_paintGradient, weight_paintMargins,
      weight_sparkleAt, weight_carry]
    omega

/-- Flushes several nodes in order, waiting between two of them, and returns the first
fault. -/
def flushMembers (around : Surroundings m) (spacing : Nat)
    : List Node → m (List Node × Except DeviceFault Unit)
  | [] => return ([], .ok ())
  | node :: rest => do
    let (node, first) ← node.flush around
    if rest.isEmpty || spacing = 0 then pure () else around.pause spacing
    let (rest, second) ← flushMembers around spacing rest
    return (node :: rest, firstFault first second)
termination_by members => weightOf members
decreasing_by
  all_goals
    simp only [weightOf]
    omega
end

end PixelTree.Node
