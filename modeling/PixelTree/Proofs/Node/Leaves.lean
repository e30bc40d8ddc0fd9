import PixelTree.Proofs.Node.Memory
import PixelTree.Proofs.Node.Sound

/-! The leaves of a tree, their pixels, and the filters around them. -/

namespace PixelTree.Node

-----------------------------------------------------------------------------------------
-- Leaves
-----------------------------------------------------------------------------------------

/-- What a tree ends in: a device. -/
inductive Leaf where
  | null (device : MemoryDevice)
  | ck (output : Kinet.Output)
  | tap (device : Rehearsal)

namespace Leaf

def toNode : Leaf → Node
  | .null device => .null device
  | .ck output => .ck output
  | .tap device => .tap device

def strip : Leaf → Strip
  | .null device => device.strip
  | .ck output => output.strip
  | .tap device => device.strip

/-- The leaf in black. -/
def dark : Leaf → Leaf
  | .null device => .null { device with strip := device.strip.darkened }
  | .ck output => .ck { output with strip := output.strip.darkened }
  | .tap device => .tap { device with strip := device.strip.darkened }

def lastFault : Leaf → Option DeviceFault
  | .null _ => none
  | .ck output => output.lastFault
  | .tap device => device.lastFault

@[simp] theorem lastFault_dark (leaf : Leaf) : leaf.dark.lastFault = leaf.lastFault := by
  cases leaf <;> rfl

end Leaf

mutual
/-- The leaves of a tree from left to right. -/
def leaves : Node → List Leaf
  | .null device => [.null device]
  | .ck output => [.ck output]
  | .tap device => [.tap device]
  | .list _ _ members => leavesOf members
  | .flip inner => inner.leaves
  | .remap _ inner => inner.leaves
  | .solid _ inner => inner.leaves
  | .gradient _ _ inner => inner.leaves
  | .sparkle _ inner => inner.leaves
  | .nav _ inner => inner.leaves

/-- The leaves of several trees. -/
def leavesOf : List Node → List Leaf
  | [] => []
  | node :: rest => node.leaves ++ leavesOf rest
end

@[simp] theorem leaves_toNode (leaf : Leaf) : leaf.toNode.leaves = [leaf] := by
  cases leaf <;> rfl

@[simp] theorem count_toNode (leaf : Leaf) : leaf.toNode.count = leaf.strip.size := by
  cases leaf <;> rfl

@[simp] theorem get_toNode (leaf : Leaf) (index : Nat)
    : leaf.toNode.get index = leaf.strip.get index := by
  cases leaf <;> rfl

@[simp] theorem lastFault_toNode (leaf : Leaf) : leaf.toNode.lastFault = leaf.lastFault := by
  cases leaf <;> rfl

theorem sound_toNode (leaf : Leaf) : leaf.toNode.Sound := by
  cases leaf <;> trivial

mutual
theorem strips_eq_map (node : Node) : node.strips = node.leaves.map Leaf.strip := by
  cases node with
  | null device => rfl
  | ck output => rfl
  | tap device => rfl
  | list spacing counts members => exact stripsOf_eq_map members
  | flip inner => exact strips_eq_map inner
  | remap table inner => exact strips_eq_map inner
  | solid paint inner => exact strips_eq_map inner
  | gradient start goal inner => exact strips_eq_map inner
  | sparkle state inner => exact strips_eq_map inner
  | nav margin inner => exact strips_eq_map inner

theorem stripsOf_eq_map (members : List Node)
    : stripsOf members = (leavesOf members).map Leaf.strip := by
  cases members with
  | nil => rfl
  | cons node rest =>
      rw [stripsOf, leavesOf, List.map_append, strips_eq_map node, stripsOf_eq_map rest]
end

mutual
/-- The leaves of the dark tree are those of the tree in black. -/
theorem leaves_dark (node : Node) : node.dark.leaves = node.leaves.map Leaf.dark := by
  cases node with
  | null device => rfl
  | ck output => rfl
  | tap device => rfl
  | list spacing counts members => exact leavesOf_darkAll members
  | flip inner => exact leaves_dark inner
  | remap table inner => exact leaves_dark inner
  | solid paint inner => exact leaves_dark inner
  | gradient start goal inner => exact leaves_dark inner
  | sparkle state inner => exact leaves_dark inner
  | nav margin inner => exact leaves_dark inner

theorem leavesOf_darkAll (members : List Node)
    : leavesOf (darkAll members) = (leavesOf members).map Leaf.dark := by
  cases members with
  | nil => rfl
  | cons node rest =>
      rw [darkAll, leavesOf, leavesOf, List.map_append, leaves_dark node, leavesOf_darkAll rest]
end

/-- Trees that are the same in black have leaves that are the same in black. -/
theorem leaves_eq_of_dark {node other : Node} (frame : other.dark = node.dark)
    : other.leaves.map Leaf.dark = node.leaves.map Leaf.dark := by
  rw [← leaves_dark, frame, leaves_dark]

mutual
/-- The last fault of a tree is that of its first leaf that has one. -/
theorem lastFault_eq_findSome? (node : Node)
    : node.lastFault = node.leaves.findSome? Leaf.lastFault := by
  cases node with
  | null device => rfl
  | ck output => simp [lastFault, leaves, Leaf.lastFault]
  | tap device => simp [lastFault, leaves, Leaf.lastFault]
  | list spacing counts members => exact lastFaultOf_eq_findSome? members
  | flip inner => exact lastFault_eq_findSome? inner
  | remap table inner => exact lastFault_eq_findSome? inner
  | solid paint inner => exact lastFault_eq_findSome? inner
  | gradient start goal inner => exact lastFault_eq_findSome? inner
  | sparkle state inner => exact lastFault_eq_findSome? inner
  | nav margin inner => exact lastFault_eq_findSome? inner

theorem lastFaultOf_eq_findSome? (members : List Node)
    : lastFaultOf members = (leavesOf members).findSome? Leaf.lastFault := by
  cases members with
  | nil => rfl
  | cons node rest =>
      rw [lastFaultOf, leavesOf, List.findSome?_append, lastFault_eq_findSome? node,
        lastFaultOf_eq_findSome? rest, Option.orElse_eq_orElse, Option.orElse_eq_or]
end

/-- Colors do not matter for faults. -/
theorem lastFault_eq_of_dark {node other : Node} (frame : other.dark = node.dark)
    : other.lastFault = node.lastFault := by
  have found : ∀ tree : Node,
      tree.lastFault = (tree.leaves.map Leaf.dark).findSome? Leaf.lastFault := by
    intro tree
    rw [lastFault_eq_findSome?, List.findSome?_map]
    congr 1
    funext leaf
    exact leaf.lastFault_dark.symm
  rw [found, found, leaves_eq_of_dark frame]

-----------------------------------------------------------------------------------------
-- Pixels
-----------------------------------------------------------------------------------------

mutual
/-- A tree has as many pixels in black. -/
theorem pixels_dark (node : Node) : node.dark.pixels = node.pixels := by
  cases node with
  | null device => exact Strip.size_darkened device.strip
  | ck output => exact Strip.size_darkened output.strip
  | tap device => exact Strip.size_darkened device.strip
  | list spacing counts members => exact pixelsOf_darkAll members
  | flip inner => exact pixels_dark inner
  | remap table inner => exact pixels_dark inner
  | solid paint inner => exact pixels_dark inner
  | gradient start goal inner => exact pixels_dark inner
  | sparkle state inner => exact pixels_dark inner
  | nav margin inner => exact pixels_dark inner

theorem pixelsOf_darkAll (members : List Node) : pixelsOf (darkAll members) = pixelsOf members := by
  cases members with
  | nil => rfl
  | cons node rest =>
      rw [darkAll, pixelsOf, pixelsOf, pixels_dark node, pixelsOf_darkAll rest]
end

theorem pixels_eq_of_dark {node other : Node} (frame : other.dark = node.dark)
    : other.pixels = node.pixels := by
  rw [← pixels_dark other, frame, pixels_dark]

@[simp] theorem pixels_toNode (leaf : Leaf) : leaf.toNode.pixels = leaf.strip.size := by
  cases leaf <;> rfl

mutual
/-- A sound tree shows no more pixels than its leaves have. -/
theorem count_le_pixels (node : Node) (sound : node.Sound) : node.count ≤ node.pixels := by
  cases node with
  | null device => exact Nat.le_refl _
  | ck output => exact Nat.le_refl _
  | tap device => exact Nat.le_refl _
  | list spacing counts members =>
      obtain ⟨rfl, sound⟩ := sound
      exact sum_counts_le_pixelsOf (count_le_pixels_of_mem members sound)
  | flip inner => exact count_le_pixels inner sound
  | remap table inner =>
      obtain ⟨renumbers, _, sound⟩ := sound
      rw [count, renumbers.size_eq]
      exact count_le_pixels inner sound
  | solid paint inner => exact count_le_pixels inner sound
  | gradient start goal inner => exact count_le_pixels inner sound
  | sparkle state inner => exact count_le_pixels inner sound
  | nav margin inner => exact Nat.le_trans (Nat.sub_le _ _) (count_le_pixels inner sound.2)

theorem count_le_pixels_of_mem (members : List Node) (sound : SoundAll members)
    : ∀ member ∈ members, member.count ≤ member.pixels := by
  cases members with
  | nil => simp
  | cons node rest =>
      exact List.forall_mem_cons.mpr
        ⟨count_le_pixels node sound.1, count_le_pixels_of_mem rest sound.2⟩
end

-----------------------------------------------------------------------------------------
-- Filters
-----------------------------------------------------------------------------------------

/-- The kinds of filters; all that renumber by a table are of one kind. -/
inductive FilterKind where
  | flip
  | remap
  | solid
  | gradient
  | sparkle
  | nav
deriving DecidableEq

mutual
/-- The kinds of all filters of a tree. -/
def filters : Node → List FilterKind
  | .null _ | .ck _ | .tap _ => []
  | .list _ _ members => filtersOf members
  | .flip inner => .flip :: inner.filters
  | .remap _ inner => .remap :: inner.filters
  | .solid _ inner => .solid :: inner.filters
  | .gradient _ _ inner => .gradient :: inner.filters
  | .sparkle _ inner => .sparkle :: inner.filters
  | .nav _ inner => .nav :: inner.filters

/-- The kinds of all filters of several trees. -/
def filtersOf : List Node → List FilterKind
  | [] => []
  | node :: rest => node.filters ++ filtersOf rest
end

@[simp] theorem filters_toNode (leaf : Leaf) : leaf.toNode.filters = [] := by
  cases leaf <;> rfl

mutual
theorem filters_dark (node : Node) : node.dark.filters = node.filters := by
  cases node with
  | null device => rfl
  | ck output => rfl
  | tap device => rfl
  | list spacing counts members => exact filtersOf_darkAll members
  | flip inner => simp only [dark, filters, filters_dark inner]
  | remap table inner => simp only [dark, filters, filters_dark inner]
  | solid paint inner => simp only [dark, filters, filters_dark inner]
  | gradient start goal inner => simp only [dark, filters, filters_dark inner]
  | sparkle state inner => simp only [dark, filters, filters_dark inner]
  | nav margin inner => simp only [dark, filters, filters_dark inner]

theorem filtersOf_darkAll (members : List Node)
    : filtersOf (darkAll members) = filtersOf members := by
  cases members with
  | nil => rfl
  | cons node rest =>
      rw [darkAll, filtersOf, filtersOf, filters_dark node, filtersOf_darkAll rest]
end

theorem filters_eq_of_dark {node other : Node} (frame : other.dark = node.dark)
    : other.filters = node.filters := by
  rw [← filters_dark other, frame, filters_dark]

mutual
/-- A tree whose filters are no margins has no margins anywhere. -/
theorem navFree_of_filters (node : Node) (free : .nav ∉ node.filters) : node.NavFree := by
  cases node with
  | null device => trivial
  | ck output => trivial
  | tap device => trivial
  | list spacing counts members => exact navFreeAll_of_filters members free
  | flip inner => exact navFree_of_filters inner (List.not_mem_of_not_mem_cons free)
  | remap table inner => exact navFree_of_filters inner (List.not_mem_of_not_mem_cons free)
  | solid paint inner => exact navFree_of_filters inner (List.not_mem_of_not_mem_cons free)
  | gradient start goal inner =>
      exact navFree_of_filters inner (List.not_mem_of_not_mem_cons free)
  | sparkle state inner => exact navFree_of_filters inner (List.not_mem_of_not_mem_cons free)
  | nav margin inner => exact absurd List.mem_cons_self free

theorem navFreeAll_of_filters (members : List Node) (free : .nav ∉ filtersOf members)
    : NavFreeAll members := by
  cases members with
  | nil => trivial
  | cons node rest =>
      rw [filtersOf, List.mem_append, not_or] at free
      exact ⟨navFree_of_filters node free.1, navFreeAll_of_filters rest free.2⟩
end

end PixelTree.Node
