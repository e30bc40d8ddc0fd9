import PixelTree.Proofs.Node.PlainArray

/-! Painting writes to several pixels, one after the other. Where pixels are independent, each one
shows what was painted on it last, and those that were not painted show what they showed.
-/

namespace PixelTree.Node

/-- The pixels of a node are independent: whatever they show, a color that is written to one of them
is read there, and no other one shows anything new.
-/
structure Independent (node : Node) : Prop where
  get_set
    : ∀ {shown : Node} {index : Nat}, Repainted node shown → index < node.count →
        ∀ color other,
          (shown.set index color).get other = if other = index then color else shown.get other

theorem Sound.independent {node : Node} (sound : node.Sound) : node.Independent where
  get_set := by
    intro shown index repainted visible
    have frame := repainted.frame
    exact (sound.of_dark frame).get_set (by rwa [count_eq_of_dark frame])

/-- The node with a color of its own written to each of some indices. -/
def paintEach {α : Type} (node : Node) (index : α → Nat) (color : α → Color) (items : List α)
    : Node :=
  items.foldl (fun node item => node.set (index item) (color item)) node

/-- Painting repaints, by induction over what is painted. -/
theorem repainted_paintEach {α : Type} (node : Node) (index : α → Nat) (color : α → Color)
    (items : List α)
    : Repainted node (node.paintEach index color items) := by
  unfold paintEach
  induction items generalizing node with
  | nil => exact .refl node
  | cons item rest ih => exact (repainted_set node _ _).trans (ih _)

namespace Independent

variable {node : Node}

theorem of_repainted (independent : node.Independent) {shown : Node}
    (repainted : Repainted node shown)
    : shown.Independent where
  get_set := by
    intro shown' index repainted' visible
    rw [count_eq_of_dark repainted.frame] at visible
    exact independent.get_set (repainted.trans repainted') visible

/-- A write to another index changes nothing, and neither does one past the end. -/
theorem get_set_of_ne (independent : node.Independent) {index other : Nat} (color : Color)
    (different : index ≠ other)
    : (node.set index color).get other = node.get other := by
  rcases Nat.lt_or_ge index node.count with visible | past
  · rw [independent.get_set (.refl node) visible, if_neg different.symm]
  · rw [set_of_le past]

variable {α : Type} {index : α → Nat} {color : α → Color} {items : List α}

/-- Painting elsewhere is not seen at an index, by induction over what is painted. -/
theorem get_paintEach_of_ne (independent : node.Independent) {place : Nat}
    (elsewhere : ∀ item ∈ items, index item ≠ place)
    : (node.paintEach index color items).get place = node.get place := by
  unfold paintEach
  induction items generalizing node with
  | nil => rfl
  | cons item rest ih =>
      obtain ⟨different, elsewhere⟩ := List.forall_mem_cons.mp elsewhere
      have painted := independent.of_repainted (repainted_set node (index item) (color item))
      rw [List.foldl_cons, ih painted elsewhere, independent.get_set_of_ne _ different]

/-- An index that is painted in one color only shows it, by induction over what is painted. -/
theorem get_paintEach (independent : node.Independent) {place : Nat} {shade : Color}
    (visible : place < node.count) (painted : ∃ item ∈ items, index item = place)
    (agree : ∀ item ∈ items, index item = place → color item = shade)
    : (node.paintEach index color items).get place = shade := by
  induction items generalizing node with
  | nil =>
      obtain ⟨_, member, _⟩ := painted
      cases member
  | cons first rest ih =>
      have repainted := repainted_set node (index first) (color first)
      have later := independent.of_repainted repainted
      obtain ⟨agreeFirst, agreeRest⟩ := List.forall_mem_cons.mp agree
      change ((node.set (index first) (color first)).paintEach index color rest).get place = shade
      -- The last of all that is painted at the index decides.
      by_cases again : ∃ item ∈ rest, index item = place
      · exact ih later (by rwa [count_set]) again agreeRest
      · have here : index first = place := by
          obtain ⟨item, member, same⟩ := painted
          rcases List.mem_cons.mp member with rfl | member
          · exact same
          · exact absurd ⟨item, member, same⟩ again
        have elsewhere : ∀ item ∈ rest, index item ≠ place :=
          fun item member same => again ⟨item, member, same⟩
        rw [later.get_paintEach_of_ne elsewhere, independent.get_set (.refl node) (by rwa [here]),
          if_pos here.symm, agreeFirst here]

/-- Painting in one color is seen at the indices that are painted and at no other ones. -/
theorem get_setEach (independent : node.Independent) (indices : List Nat) (shade : Color)
    {place : Nat} (visible : place < node.count)
    : (node.setEach indices shade).get place
      = if place ∈ indices then shade else node.get place := by
  change (node.paintEach id (fun _ => shade) indices).get place = _
  split
  · next member =>
      exact independent.get_paintEach visible ⟨place, member, rfl⟩ (fun _ _ _ => rfl)
  · next absent =>
      refine independent.get_paintEach_of_ne ?_
      rintro index member rfl
      exact absent member

end Independent

end PixelTree.Node
