import PixelTree.Proofs.Node.Calm
import PixelTree.Proofs.Node.EveryLeaf
import PixelTree.Proofs.Node.Outline

/-! A filter that paints over all that it shows masks what is written through it: writes through the
filter reach visible cells only, and a flush paints all of these alike whatever they showed.
-/

namespace PixelTree

namespace Node

-----------------------------------------------------------------------------------------
-- Writes between two flushes
-----------------------------------------------------------------------------------------

/-- The trees that any sequence of writes and visits makes of a tree. -/
inductive Written (tree : Node) : Node → Prop where
  | start : Written tree tree
  | set {node : Node} (earlier : Written tree node) (index : Nat) (color : Color)
    : Written tree (node.set index color)
  | setAll {node : Node} (earlier : Written tree node) (color : Color)
    : Written tree (node.setAll color)
  | clear {node : Node} (earlier : Written tree node) : Written tree node.clear
  | visit {node : Node} (earlier : Written tree node) {τ : Type}
    (visitor : Nat → Color → τ → Color × τ) (state : τ)
    : Written tree (node.visit visitor state).1

/-- Writes and visits only repaint, by induction over them. -/
theorem Written.repainted {tree node : Node} (written : Written tree node)
    : Repainted tree node := by
  induction written with
  | start => exact .refl tree
  | set _ index color ih => exact ih.trans (repainted_set _ index color)
  | setAll _ color ih => exact ih.trans (repainted_setEach _ _ color)
  | clear _ ih => exact ih.trans (repainted_setEach _ _ Color.black)
  | visit _ visitor state ih => exact ih.trans (repainted_visitEach visitor _ _ state)

-----------------------------------------------------------------------------------------
-- Painting over
-----------------------------------------------------------------------------------------

/-- Painting that reaches every visible cell, in colors that only depend on how many there are. -/
structure Overpaints (paint : Node → Node) : Prop where
  repainted : ∀ node, Repainted node (paint node)
  covered
    : ∃ colors : Nat → List Color, ∀ node, node.Sound → (paint node).snapshot = colors node.count

/-- Trees that differ in visible cells only are the same once all of these are painted over. -/
theorem Overpaints.eq_of_repainted {paint : Node → Node} (overpaints : Overpaints paint)
    {node other : Node} (sound : node.Sound) (repainted : Repainted node other)
    : paint other = paint node := by
  obtain ⟨colors, covered⟩ := overpaints.covered
  have painted := overpaints.repainted node
  have differ : Repainted (paint node) (paint other) :=
    (painted.symm.trans repainted).trans (overpaints.repainted other)
  have counts := count_eq_of_dark repainted.frame
  refine differ.eq_of_snapshot ?_
  rw [covered node sound, covered other (sound.of_dark repainted.frame), counts]

theorem overpaints_setAll (color : Color) : Overpaints (fun node => node.setAll color) where
  repainted := fun node => repainted_setEach node _ color
  covered := ⟨(List.replicate · color), fun _ sound => sound.snapshot_setAll color⟩

/-- Colors that are written to all visible indices are all that is shown. -/
theorem Sound.snapshot_writeFrom {node : Node} (sound : node.Sound) {colors : List Color}
    (whole : colors.length = node.count)
    : (node.writeFrom 0 colors).snapshot = colors := by
  have counts := count_eq_of_dark (repainted_writeFrom node 0 colors).frame
  apply List.ext_getElem?
  intro index
  rcases Nat.lt_or_ge index node.count with visible | past
  · have inside : index < colors.length := by rwa [whole]
    rw [getElem?_snapshot (by rwa [counts]), sound.get_writeFrom (by rwa [Nat.zero_add]),
      if_neg (Nat.not_lt_zero index), Nat.sub_zero, List.getD_eq_getElem?_getD,
      List.getElem?_eq_getElem inside, Option.getD_some]
  · rw [List.getElem?_eq_none (by rwa [length_snapshot, counts]),
      List.getElem?_eq_none (by rwa [whole])]

theorem overpaints_paintGradient (start goal : Color) : Overpaints (paintGradient start goal) where
  repainted := fun node => repainted_writeFrom node _ _
  covered := by
    refine ⟨fun count => (List.range count).map (gradientColor start goal count), ?_⟩
    intro node sound
    exact sound.snapshot_writeFrom (by rw [List.length_map, List.length_range])

-----------------------------------------------------------------------------------------
-- Filters that paint over
-----------------------------------------------------------------------------------------

/-- A node is a filter that paints over all of its inner node. -/
inductive Masks (inner : Node) : Node → Prop where
  | solid (color : Color) : Masks inner (.solid color inner)
  | gradient (start goal : Color) : Masks inner (.gradient start goal inner)

theorem Masks.sound_iff {inner node : Node} (masks : Masks inner node)
    : node.Sound ↔ inner.Sound := by
  cases masks <;> exact Iff.rfl

/-- A tree with the outline of such a filter is such a filter. -/
theorem Masks.exists_of_outline {inner node other : Node} (masks : Masks inner node)
    (same : other.outline = node.outline)
    : ∃ inner', Masks inner' other := by
  cases masks with
  | solid color =>
      cases other <;> simp only [outline, Leaf.outline, Leaf.toNode, reduceCtorEq] at same
      exact ⟨_, .solid _⟩
  | gradient start goal =>
      cases other <;> simp only [outline, Leaf.outline, Leaf.toNode, reduceCtorEq] at same
      exact ⟨_, .gradient _ _⟩

/-- It does not matter to a flush of such a filter what was written through it: the inner trees
differ in visible cells only, and these are painted over first.
-/
theorem Masks.flush_eq_of_repainted {inner node other : Node} (masks : Masks inner node)
    (sound : inner.Sound) (repainted : Repainted node other) {m : Type → Type} [Monad m]
    (around : Surroundings m)
    : other.flush around = node.flush around := by
  have frame := repainted.frame
  cases masks with
  | solid color =>
      cases other <;> simp only [dark, reduceCtorEq, solid.injEq] at frame
      next inner' =>
        obtain ⟨rfl, dark⟩ := frame
        have inside : Repainted inner inner' := ⟨dark, repainted.hidden⟩
        rw [flush, flush, (overpaints_setAll _).eq_of_repainted sound inside]
  | gradient start goal =>
      cases other <;> simp only [dark, reduceCtorEq, gradient.injEq] at frame
      next inner' =>
        obtain ⟨rfl, rfl, dark⟩ := frame
        have inside : Repainted inner inner' := ⟨dark, repainted.hidden⟩
        rw [flush, flush, (overpaints_paintGradient _ _).eq_of_repainted sound inside]

end Node

namespace Session

open Node

/-- A built tree in a filter that paints over it: whatever was done to the filter before, two
sequences of writes and visits through it are followed by the same flush. Every leaf is handed the
same frame, the result is the same, and so is all that is left behind.
-/
theorem flush_masks_writes {spacing : Nat} {seeds : SeedSupply} {descriptor : String}
    {inner node first second : Node} {session : Session}
    (built : buildTree Catalog.standard spacing seeds descriptor = .ok inner)
    (fits : inner.FitsMemory) (masks : Masks inner node) (reached : session.Reached node)
    (written : Written session.tree first) (written' : Written session.tree second) {σ : Type}
    (around : Surroundings (StateM σ)) (s : σ)
    : ∃ after result s' events,
        (first.flush around).run s = ((after, result), s')
        ∧ (second.flush around).run s = ((after, result), s')
        ∧ ReachesLeaves around first s after result s' events
        ∧ ReachesLeaves around second s after result s' events := by
  have soundNode := masks.sound_iff.mpr ((fresh_of_buildTree built).sound fits)
  obtain ⟨innerNow, masksNow⟩ := masks.exists_of_outline reached.outline_eq
  have sound := masksNow.sound_iff.mp (reached.keeps.sound soundNode)
  have same : second.flush around = first.flush around :=
    (masksNow.flush_eq_of_repainted sound written'.repainted around).trans
      (masksNow.flush_eq_of_repainted sound written.repainted around).symm
  rcases flushed : (first.flush around).run s with ⟨⟨after, result⟩, s'⟩
  obtain ⟨events, reaches⟩ := (flushes_of_flush flushed).exists_reachesLeaves
  refine ⟨after, result, s', events, rfl, by rw [same, flushed], reaches, ?_⟩
  exact reaches.of_painted (written.repainted.frame.trans written'.repainted.frame.symm)

/-- A pixel between margins is written through a gradient or not: the flush is the same. -/
theorem flush_masks_pixel_between_margins
    : ∃ tree,
        buildTree Catalog.standard 0 ⟨fun _ => 7⟩ "nav:1|rotate:0.5|[flip|null:3, null:2]"
          = .ok tree
        ∧ ∀ around : Surroundings (StateM Unit),
            (((Node.gradient Color.black Color.white tree).set 0 Color.pureRed).flush around).run ()
              = ((Node.gradient Color.black Color.white tree).clear.flush around).run () := by
  have facts : (buildTree Catalog.standard 0 ⟨fun _ => 7⟩
      "nav:1|rotate:0.5|[flip|null:3, null:2]").map Node.pixels = .ok 5 := by
    decide +kernel
  obtain ⟨tree, built, pixels⟩ := exists_of_map_eq_ok facts
  have fits : tree.FitsMemory := by
    rw [FitsMemory, pixels]
    decide
  refine ⟨tree, built, ?_⟩
  intro around
  obtain ⟨after, result, s', _, first, second, _⟩ :=
    flush_masks_writes built fits (.gradient Color.black Color.white) .start
      (.set .start 0 Color.pureRed) (.clear .start) around ()
  exact first.trans second.symm

end Session

end PixelTree
