import PixelTree.Proofs.Build.Descriptions
import PixelTree.Proofs.Node.Flushing

/-! Every tree that is built, and every tree that it becomes by writes, visits and flushes, is an
array.
-/

namespace PixelTree

open Descriptor (Stage)

/-- A filter of the standard catalog around a sound node is sound. -/
theorem Wraps.sound {stage : Stage} {inner node : Node} (wraps : Wraps stage inner node)
    (small : inner.count ≤ Numeral.signedLimit) (sound : inner.Sound)
    : node.Sound := by
  cases wraps with
  | flip => exact sound
  | remap fits => exact ⟨fits.renumbers small, small, sound⟩
  | solid color => exact sound
  | gradient start goal => exact sound
  | sparkle color seed _ hon hoff => exact sound
  | nav _ word => exact ⟨word, sound⟩

/-- A built tree is sound, by induction over its nodes. -/
theorem Fresh.sound {spacing : Nat} {node : Node} (fresh : Fresh spacing node)
    (fits : node.FitsMemory)
    : node.Sound := by
  induction fresh with
  | null word => exact trivial
  | ck readable => exact trivial
  | @list members several _ ih =>
      refine ⟨rfl, Node.soundAll_iff.mpr ?_⟩
      intro member found
      have part : member.pixels ≤ Node.pixelsOf members := Node.pixels_le_pixelsOf found
      exact ih member found (Nat.lt_of_le_of_lt part fits)
  | filter wraps inner ih =>
      have fitsInner := fits
      rw [Node.FitsMemory, wraps.pixels_eq] at fitsInner
      have counted := Node.count_le_pixels _ (ih fitsInner)
      exact wraps.sound (Nat.le_of_lt (Nat.lt_of_le_of_lt counted fitsInner)) (ih fitsInner)

namespace Node

/-- The trees that a descriptor is built as, or that this tree becomes by any sequence of writes,
visits and flushes. A flush happens in surroundings of any kind: these decide what time it is and
what becomes of each datagram.
-/
inductive Reachable (spacing : Nat) (seeds : SeedSupply) (descriptor : String) : Node → Prop where
  | built {tree : Node} (built : buildTree Catalog.standard spacing seeds descriptor = .ok tree)
    (fits : tree.FitsMemory)
    : Reachable spacing seeds descriptor tree
  | set {tree : Node} (earlier : Reachable spacing seeds descriptor tree) (index : Nat)
    (color : Color)
    : Reachable spacing seeds descriptor (tree.set index color)
  | setAll {tree : Node} (earlier : Reachable spacing seeds descriptor tree) (color : Color)
    : Reachable spacing seeds descriptor (tree.setAll color)
  | clear {tree : Node} (earlier : Reachable spacing seeds descriptor tree)
    : Reachable spacing seeds descriptor tree.clear
  | visit {tree : Node} (earlier : Reachable spacing seeds descriptor tree) {σ : Type}
    (visitor : Nat → Color → σ → Color × σ) (state : σ)
    : Reachable spacing seeds descriptor (tree.visit visitor state).1
  | flush {tree : Node} (earlier : Reachable spacing seeds descriptor tree) {σ : Type}
    (around : Surroundings (StateM σ)) (state : σ)
    : Reachable spacing seeds descriptor ((tree.flush around).run state).1.1

variable {spacing : Nat} {seeds : SeedSupply} {descriptor : String} {tree : Node}

/-- Every reachable tree is sound, by induction over what was done to it. -/
theorem Reachable.sound (reachable : Reachable spacing seeds descriptor tree) : tree.Sound := by
  induction reachable with
  | built built fits => exact (fresh_of_buildTree built).sound fits
  | set _ index color ih => exact ih.of_dark (dark_set _ index color)
  | setAll _ color ih => exact ih.of_dark (dark_setAll _ color)
  | clear _ ih => exact ih.of_dark (dark_setAll _ Color.black)
  | visit _ visitor state ih => exact ih.of_dark (repainted_visitEach visitor _ _ state).frame
  | flush _ around state ih => exact (flushes_flush around _ state).keeps.sound ih

/-- Every reachable tree is an array of independent pixels. -/
theorem isArray_of_reachable (reachable : Reachable spacing seeds descriptor tree)
    : tree.IsArray :=
  reachable.sound.isArray

/-- A strip between margins, renumbered over a list, is an array after a write. -/
theorem isArray_between_margins
    : ∃ tree,
        buildTree Catalog.standard 0 ⟨fun _ => 7⟩ "nav:1|skip:2|[flip|null:3, null:2]" = .ok tree
        ∧ Reachable 0 ⟨fun _ => 7⟩ "nav:1|skip:2|[flip|null:3, null:2]"
          (tree.set 1 Color.pureRed)
        ∧ (tree.set 1 Color.pureRed).count = 3
        ∧ (tree.set 1 Color.pureRed).place 1 = some ⟨1, 1⟩
        ∧ (tree.set 1 Color.pureRed).IsArray := by
  have facts : (buildTree Catalog.standard 0 ⟨fun _ => 7⟩
      "nav:1|skip:2|[flip|null:3, null:2]").map
      (fun tree => (tree.pixels, tree.count, tree.place 1)) = .ok (5, 3, some ⟨1, 1⟩) := by
    decide +kernel
  obtain ⟨tree, built, facts⟩ := exists_of_map_eq_ok facts
  obtain ⟨pixels, facts⟩ := Prod.mk.inj facts
  obtain ⟨count, place⟩ := Prod.mk.inj facts
  have fits : tree.FitsMemory := by
    rw [FitsMemory, pixels]
    decide
  have frame := dark_set tree 1 Color.pureRed
  have reachable := Reachable.set (.built built fits) 1 Color.pureRed
  refine ⟨tree, built, reachable, ?_, ?_, isArray_of_reachable reachable⟩
  · rw [count_eq_of_dark frame, count]
  · rw [place_eq_of_dark frame, place]

end Node

end PixelTree
