import PixelTree.Node.Basic
import PixelTree.Proofs.Color.Written

/-! Trees that differ in nothing but what the 8-bit levels of their filters' colors leave open. -/

namespace PixelTree

mutual
/-- Two trees with the same nodes in the same places: their leaves, tables, margins and times
are equal, and the colors of their filters have equal levels.
-/
inductive Alike : Node → Node → Prop where
  | null (device : MemoryDevice) : Alike (.null device) (.null device)
  | ck (output : Kinet.Output) : Alike (.ck output) (.ck output)
  | tap (device : Rehearsal) : Alike (.tap device) (.tap device)
  | list (spacing : Nat) (counts : List Nat) {members members' : List Node}
    (alike : AllAlike members members')
    : Alike (.list spacing counts members) (.list spacing counts members')
  | flip {inner inner' : Node} (alike : Alike inner inner') : Alike (.flip inner) (.flip inner')
  | remap (table : Remap.Table) {inner inner' : Node} (alike : Alike inner inner')
    : Alike (.remap table inner) (.remap table inner')
  | solid {color color' : Color} (levels : color'.levels = color.levels) {inner inner' : Node}
    (alike : Alike inner inner')
    : Alike (.solid color inner) (.solid color' inner')
  | gradient {start start' goal goal' : Color} (startLevels : start'.levels = start.levels)
    (goalLevels : goal'.levels = goal.levels) {inner inner' : Node}
    (alike : Alike inner inner')
    : Alike (.gradient start goal inner) (.gradient start' goal' inner')
  | sparkle (state : Sparkle) {color' : Color} (levels : color'.levels = state.color.levels)
    {inner inner' : Node} (alike : Alike inner inner')
    : Alike (.sparkle state inner) (.sparkle { state with color := color' } inner')
  | nav (margin : Nat) {inner inner' : Node} (alike : Alike inner inner')
    : Alike (.nav margin inner) (.nav margin inner')

/-- Rows of as many trees, each like the one in its place. -/
inductive AllAlike : List Node → List Node → Prop where
  | nil : AllAlike [] []
  | cons {node node' : Node} {rest rest' : List Node} (alike : Alike node node')
    (others : AllAlike rest rest')
    : AllAlike (node :: rest) (node' :: rest')
end

namespace Node

mutual
/-- The tree with every color of a filter rounded to its levels. -/
def rounded : Node → Node
  | .null device => .null device
  | .ck output => .ck output
  | .tap device => .tap device
  | .list spacing counts members => .list spacing counts (roundedAll members)
  | .flip inner => .flip inner.rounded
  | .remap table inner => .remap table inner.rounded
  | .solid color inner => .solid color.rounded inner.rounded
  | .gradient start goal inner => .gradient start.rounded goal.rounded inner.rounded
  | .sparkle state inner => .sparkle { state with color := state.color.rounded } inner.rounded
  | .nav margin inner => .nav margin inner.rounded

/-- Several trees with their colors rounded. -/
def roundedAll : List Node → List Node
  | [] => []
  | node :: rest => node.rounded :: roundedAll rest
end

theorem roundedAll_eq_map (members : List Node) : roundedAll members = members.map rounded := by
  induction members with
  | nil => rfl
  | cons node rest ih => rw [roundedAll, ih, List.map_cons]

/-- Rounding keeps the number of pixels, by induction over the filters in front. -/
@[simp] theorem count_rounded (node : Node) : node.rounded.count = node.count := by
  cases node with
  | null device => rfl
  | ck output => rfl
  | tap device => rfl
  | list spacing counts members => rfl
  | flip inner => exact count_rounded inner
  | remap table inner => rfl
  | solid color inner => exact count_rounded inner
  | gradient start goal inner => exact count_rounded inner
  | sparkle state inner => exact count_rounded inner
  | nav margin inner => rw [rounded, count, count, count_rounded inner]

mutual
/-- A description shows colors by their levels only, so rounding keeps it. -/
theorem describe_rounded (node : Node) : node.rounded.describe = node.describe := by
  cases node with
  | null device => rfl
  | ck output => rfl
  | tap device => rfl
  | list spacing counts members =>
      rw [rounded, describe, describe, describeAll_roundedAll members]
  | flip inner => rw [rounded, describe, describe, describe_rounded inner]
  | remap table inner => rw [rounded, describe, describe, describe_rounded inner]
  | solid color inner =>
      rw [rounded, describe, describe, describe_rounded inner, Color.display_rounded]
  | gradient start goal inner =>
      rw [rounded, describe, describe, describe_rounded inner, Color.display_rounded,
        Color.display_rounded]
  | sparkle state inner =>
      rw [rounded, describe, describe, describe_rounded inner, Sparkle.display,
        Sparkle.display, Color.display_rounded]
  | nav margin inner => rw [rounded, describe, describe, describe_rounded inner]

theorem describeAll_roundedAll (members : List Node)
    : describeAll (roundedAll members) = describeAll members := by
  cases members with
  | nil => rfl
  | cons node rest =>
      rw [roundedAll, describeAll, describeAll, describe_rounded node,
        describeAll_roundedAll rest]
end

mutual
/-- A tree and its rounding are alike. -/
theorem alike_rounded (node : Node) : Alike node node.rounded := by
  cases node with
  | null device => exact .null device
  | ck output => exact .ck output
  | tap device => exact .tap device
  | list spacing counts members => exact .list spacing counts (allAlike_roundedAll members)
  | flip inner => exact .flip (alike_rounded inner)
  | remap table inner => exact .remap table (alike_rounded inner)
  | solid color inner => exact .solid (Color.levels_rounded _) (alike_rounded inner)
  | gradient start goal inner =>
      exact .gradient (Color.levels_rounded _) (Color.levels_rounded _) (alike_rounded inner)
  | sparkle state inner => exact .sparkle state (Color.levels_rounded _) (alike_rounded inner)
  | nav margin inner => exact .nav margin (alike_rounded inner)

theorem allAlike_roundedAll (members : List Node) : AllAlike members (roundedAll members) := by
  cases members with
  | nil => exact .nil
  | cons node rest => exact .cons (alike_rounded node) (allAlike_roundedAll rest)
end

end Node

end PixelTree
