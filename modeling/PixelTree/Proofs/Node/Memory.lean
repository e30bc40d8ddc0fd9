import PixelTree.Node.Basic

/-! The pixels of all leaves of a tree, which have to fit in the memory of a machine. -/

namespace PixelTree.Node

mutual
/-- The number of pixels of all leaves, hidden ones included. -/
def pixels : Node → Nat
  | .null device => device.strip.size
  | .ck output => output.strip.size
  | .tap device => device.strip.size
  | .list _ _ members => pixelsOf members
  | .flip inner => inner.pixels
  | .remap _ inner => inner.pixels
  | .solid _ inner => inner.pixels
  | .gradient _ _ inner => inner.pixels
  | .sparkle _ inner => inner.pixels
  | .nav _ inner => inner.pixels

/-- The number of pixels of all leaves of several trees. -/
def pixelsOf : List Node → Nat
  | [] => 0
  | node :: rest => node.pixels + pixelsOf rest
end

/-- A machine holds fewer bytes, and all the more fewer pixels, than signed words can count. -/
def FitsMemory (node : Node) : Prop :=
  node.pixels < Numeral.signedLimit

/-- A member has no more pixels than all members together. -/
theorem pixels_le_pixelsOf {members : List Node} {member : Node} (found : member ∈ members)
    : member.pixels ≤ pixelsOf members := by
  induction members with
  | nil => cases found
  | cons node rest ih =>
      rw [pixelsOf]
      rcases List.mem_cons.mp found with rfl | found
      · exact Nat.le_add_right _ _
      · exact Nat.le_trans (ih found) (Nat.le_add_left _ _)

/-- If no member has more pixels than its leaves, neither has the list. -/
theorem sum_counts_le_pixelsOf {members : List Node}
    (each : ∀ member ∈ members, member.count ≤ member.pixels)
    : (members.map count).foldr (· + ·) 0 ≤ pixelsOf members := by
  induction members with
  | nil => exact Nat.le_refl 0
  | cons node rest ih =>
      have head := each node List.mem_cons_self
      have tail := ih (fun member found => each member (List.mem_cons_of_mem _ found))
      rw [List.map_cons, List.foldr_cons, pixelsOf]
      exact Nat.add_le_add head tail

end PixelTree.Node
