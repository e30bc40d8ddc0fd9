import PixelTree.Proofs.Node.Margins
import PixelTree.Proofs.Node.Session

/-! Calm trees have no filter that paints over what they show. A filter that moves copies its
colors to other pixels and margins are painted where nobody looks, so that such a tree shows after
a flush what it showed before. It shows what was last written to it, whatever was done since.
-/

namespace PixelTree

namespace Node

-----------------------------------------------------------------------------------------
-- Reading behind several writes
-----------------------------------------------------------------------------------------

theorem getD_snapshot (node : Node) (index : Nat)
    : node.snapshot.getD index Color.black = node.get index := by
  rcases Nat.lt_or_ge index node.count with visible | past
  · rw [List.getD_eq_getElem?_getD, getElem?_snapshot visible, Option.getD_some]
  · rw [List.getD_eq_getElem?_getD, List.getElem?_eq_none (by rwa [length_snapshot]),
      Option.getD_none, get_of_le past]

namespace Sound

variable {node : Node}

/-- Colors that are written up to the last index are read there, by induction over them: each
write leaves the indices ahead of it as they were.
-/
theorem get_writeFrom (sound : node.Sound) {start : Nat} {colors : List Color}
    (whole : start + colors.length = node.count) (index : Nat)
    : (node.writeFrom start colors).get index
      = if index < start then node.get index else colors.getD (index - start) Color.black := by
  induction colors generalizing node start with
  | nil =>
      rw [List.length_nil, Nat.add_zero] at whole
      rw [writeFrom, List.getD_nil]
      split
      · rfl
      · next past =>
          have beyond : node.count ≤ index := by omega
          exact get_of_le beyond
  | cons color rest ih =>
      rw [List.length_cons] at whole
      have frame := dark_set node start color
      have fewer : start + 1 + rest.length = (node.set start color).count := by
        rw [count_eq_of_dark frame]
        omega
      rw [writeFrom, ih (sound.of_dark frame) fewer, sound.get_set (by omega)]
      rcases Nat.lt_trichotomy index start with before | rfl | behind
      · rw [if_pos (by omega), if_neg (by omega), if_pos before]
      · simp
      · obtain ⟨distance, rfl⟩ := Nat.exists_eq_add_of_lt behind
        have next : start + distance + 1 - (start + 1) = distance := by omega
        have this : start + distance + 1 - start = distance + 1 := by omega
        rw [if_neg (by omega), if_neg (by omega), next, this, List.getD_cons_succ]

end Sound

-----------------------------------------------------------------------------------------
-- What filters that move carry along
-----------------------------------------------------------------------------------------

/-- Writes of consecutive indices through a table are writes to the filter with the table. -/
theorem remap_writeThrough (table : Remap.Table) (inner : Node) (index : Nat)
    (colors : List Color)
    : Node.remap table (writeThrough table inner index colors)
      = (Node.remap table inner).writeFrom index colors := by
  induction colors generalizing inner index with
  | nil => rfl
  | cons color rest ih =>
      rw [writeThrough, writeFrom, set]
      cases table.index? index with
      | some place => exact ih (inner.set place color) (index + 1)
      | none => exact ih inner (index + 1)

/-- A filter with another table that renumbers shows what it showed with the old one, as soon as
its colors are carried over.
-/
theorem get_carry {old new : Remap.Table} {inner : Node} (sound : (Node.remap old inner).Sound)
    (renumbers : new.Renumbers inner.count) (index : Nat)
    : (Node.remap new (carry old new inner)).get index = (Node.remap old inner).get index := by
  have sound' : (Node.remap new inner).Sound := ⟨renumbers, sound.2⟩
  have whole : 0 + (Node.remap old inner).snapshot.length = (Node.remap new inner).count := by
    rw [Nat.zero_add, length_snapshot, count, count, sound.1.size_eq, renumbers.size_eq]
  rw [carry, remap_writeThrough, sound'.get_writeFrom whole, if_neg (Nat.not_lt_zero index),
    Nat.sub_zero, getD_snapshot]

-----------------------------------------------------------------------------------------
-- Painted margins
-----------------------------------------------------------------------------------------

/-- What is between the margins is not painted: the red pixels stand before it and the green ones
behind it.
-/
theorem get_paintMargins {margin : Nat} {inner : Node} (sound : inner.Sound)
    (small : inner.count < Numeral.wordLimit) {index : Nat}
    (between : index < visibleCount inner.count margin)
    : (paintMargins margin inner).get (index + margin) = inner.get (index + margin) := by
  have parts : redCount inner.count margin + visibleCount inner.count margin
      + greenCount inner.count margin = inner.count := parts_eq_total small
  have red := redCount_of_visible small between
  rw [sound.independent.get_paintMargins margin (by omega), if_neg (by omega), if_pos (by omega)]

-----------------------------------------------------------------------------------------
-- Calm trees
-----------------------------------------------------------------------------------------

/-- A tree has no filter that paints over what is visible. -/
def Calm (node : Node) : Prop :=
  ∀ filter ∈ node.filters, filter ≠ .solid ∧ filter ≠ .gradient ∧ filter ≠ .sparkle

/-- What is kept of a calm tree is calm. -/
theorem Keeps.calm {node other : Node} (kept : Keeps node other) (calm : node.Calm)
    : other.Calm := by
  rwa [Calm, kept.filters_eq]

theorem Keeps.fitsMemory {node other : Node} (kept : Keeps node other) (fits : node.FitsMemory)
    : other.FitsMemory := by
  rwa [FitsMemory, kept.pixels_eq]

/-- What is inside a filter of a calm tree is calm. -/
theorem Calm.inner {node inner : Node} {filter : FilterKind} (calm : node.Calm)
    (filters : node.filters = filter :: inner.filters)
    : inner.Calm := by
  rw [Calm, filters] at calm
  exact (List.forall_mem_cons.mp calm).2

/-- A filter that renumbers shows what the inner node shows. -/
theorem get_remap_congr {inner inner' : Node} (same : ∀ index, inner'.get index = inner.get index)
    (table : Remap.Table) (index : Nat)
    : (Node.remap table inner').get index = (Node.remap table inner).get index := by
  simp only [get, same]

/-- A calm tree that fits in memory shows the same colors after a flush, by induction over the
rules.
-/
theorem Flushes.get_eq {σ : Type} {around : Surroundings (StateM σ)} {node node' : Node}
    {result : Except DeviceFault Unit} {s s' : σ}
    (flushes : Flushes around node s node' result s') (sound : node.Sound)
    (fits : node.FitsMemory) (calm : node.Calm) (index : Nat)
    : node'.get index = node.get index := by
  induction flushes generalizing index with
  | leaf flushed => rw [get_toNode, get_toNode, (Leaf.flushed_of_flush flushed).strip_eq]
  | empty spacing counts s => rfl
  | @member spacing counts first first' rest rest' _ _ _ _ _ _ _ ih ihRest =>
      obtain ⟨rfl, soundFirst, soundRest⟩ := sound
      have calms := List.forall_mem_append.mp calm
      rw [FitsMemory, pixels, pixelsOf] at fits
      have heads := ih soundFirst (Nat.lt_of_le_of_lt (Nat.le_add_right _ _) fits) calms.1
      have tails := ihRest ⟨rfl, soundRest⟩ (Nat.lt_of_le_of_lt (Nat.le_add_left _ _) fits) calms.2
      rw [List.map_cons, get_list_cons, get_list_cons, heads]
      split
      · rfl
      · exact tails _
  | @flip inner inner' _ _ _ flushed ih =>
      have same := ih sound fits (calm.inner rfl)
      simp only [get, flushed.keeps.count_eq, same]
  | still _ _ ih =>
      exact get_remap_congr (ih sound.2.2 fits (calm.inner rfl)) _ index
  | @moving table inner inner' _ elapsed _ _ _ _ _ _ ih =>
      obtain ⟨renumbers, small, soundInner⟩ := sound
      have frame := dark_carry table (table.atTime elapsed) inner
      have carried := Keeps.of_dark frame
      have same := ih (soundInner.of_dark frame) (carried.fitsMemory fits)
        (carried.calm (calm.inner rfl))
      calc (Node.remap (table.atTime elapsed) inner').get index
        _ = (Node.remap (table.atTime elapsed) (carry table (table.atTime elapsed) inner)).get
              index := get_remap_congr same _ index
        _ = (Node.remap table inner).get index :=
            get_carry ⟨renumbers, small, soundInner⟩ (renumbers.atTime small elapsed) index
  | solid _ _ => exact absurd rfl (calm .solid List.mem_cons_self).1
  | gradient _ _ => exact absurd rfl (calm .gradient List.mem_cons_self).2.1
  | sparkle _ _ _ => exact absurd rfl (calm .sparkle List.mem_cons_self).2.2
  | @nav margin inner inner' _ _ _ flushed ih =>
      have frame := dark_paintMargins margin inner
      have painted := Keeps.of_dark frame
      have same := ih (sound.2.of_dark frame) (painted.fitsMemory fits)
        (painted.calm (calm.inner rfl))
      have counts := flushed.keeps.count_eq.trans painted.count_eq
      simp only [get, counts, same]
      split
      · next between =>
          have limit : Numeral.signedLimit < Numeral.wordLimit := by decide
          have small := Nat.lt_of_le_of_lt (count_le_pixels inner sound.2) fits
          exact get_paintMargins sound.2 (Nat.lt_trans small limit) between
      · rfl

theorem Flushes.snapshot_eq {σ : Type} {around : Surroundings (StateM σ)} {node node' : Node}
    {result : Except DeviceFault Unit} {s s' : σ}
    (flushes : Flushes around node s node' result s') (sound : node.Sound)
    (fits : node.FitsMemory) (calm : node.Calm)
    : node'.snapshot = node.snapshot := by
  have same := flushes.get_eq sound fits calm
  rw [snapshot, snapshot, flushes.keeps.count_eq]
  exact List.map_congr_left (fun index _ => same index)

-----------------------------------------------------------------------------------------
-- Trees that nothing was written to
-----------------------------------------------------------------------------------------

/-- A row of members that are black everywhere is black. -/
theorem getMember_eq_black {members : List Node}
    (black : ∀ member ∈ members, ∀ index, member.get index = Color.black) (member index : Nat)
    : getMember members member index = Color.black := by
  induction members generalizing member with
  | nil => rfl
  | cons node rest ih =>
      obtain ⟨head, tail⟩ := List.forall_mem_cons.mp black
      cases member with
      | zero => exact head index
      | succ member => exact ih tail member

end Node

@[simp] theorem Strip.get_dark (count index : Nat) : (dark count).get index = Color.black := by
  rw [get, dark, Array.getElem?_replicate]
  split <;> rfl

/-- A filter of the standard catalog is black around a black node. -/
theorem Wraps.get_eq_black {stage : Descriptor.Stage} {inner node : Node}
    (wraps : Wraps stage inner node) (black : ∀ index, inner.get index = Color.black) (index : Nat)
    : node.get index = Color.black := by
  cases wraps with
  | flip =>
      simp only [Node.get, black]
      split <;> rfl
  | remap fits =>
      simp only [Node.get, black]
      split <;> rfl
  | solid color => exact black index
  | gradient start goal => exact black index
  | sparkle color seed _ hon hoff => exact black index
  | nav _ word =>
      simp only [Node.get, black]
      split <;> rfl

/-- A built tree is black, by induction over its nodes. -/
theorem Fresh.get_eq_black {spacing : Nat} {node : Node} (fresh : Fresh spacing node)
    (index : Nat)
    : node.get index = Color.black := by
  induction fresh generalizing index with
  | null word => exact Strip.get_dark _ index
  | ck readable => exact Strip.get_dark _ index
  | list several _ ih =>
      rw [Node.ofMembers, Node.get]
      split
      · exact Node.getMember_eq_black ih _ _
      · rfl
  | filter wraps _ ih => exact wraps.get_eq_black ih index

namespace Session

open Node

variable {spacing : Nat} {seeds : SeedSupply} {descriptor : String} {tree : Node}
  {session : Session}

/-- A calm tree that was built shows the colors that were last written to it, and black where
none was, by induction over what was done.
-/
theorem Reached.snapshot_eq (reached : session.Reached tree)
    (built : buildTree Catalog.standard spacing seeds descriptor = .ok tree)
    (fits : tree.FitsMemory) (calm : tree.Calm)
    : session.tree.snapshot = session.written := by
  induction reached with
  | start =>
      have black := (fresh_of_buildTree built).get_eq_black
      rw [Session.start, snapshot, funext black, List.map_const', List.length_range]
  | set earlier index color ih =>
      have sound := (earlier.reachable built fits).sound
      rw [Session.set, sound.snapshot_set, ih]
  | setAll earlier color ih =>
      have sound := (earlier.reachable built fits).sound
      rw [Session.setAll, sound.snapshot_setAll, ← ih, length_snapshot]
  | clear earlier ih =>
      have sound := (earlier.reachable built fits).sound
      rw [Session.clear, Node.clear, sound.snapshot_setAll, ← ih, length_snapshot]
  | visit earlier visitor state ih =>
      have sound := (earlier.reachable built fits).sound
      rw [Session.visit, ← ih]
      exact congrArg Prod.fst (sound.snapshot_visit visitor state)
  | flush earlier around s ih =>
      have sound := (earlier.reachable built fits).sound
      rw [Session.flush, ← ih]
      exact (flushes_flush around _ s).snapshot_eq sound (earlier.keeps.fitsMemory fits)
        (earlier.keeps.calm calm)

/-- A calm tree that was built shows after a flush what it showed before, whatever was done to it,
whatever time its filters see and whatever becomes of its frames.
-/
theorem snapshot_flush
    (built : buildTree Catalog.standard spacing seeds descriptor = .ok tree)
    (fits : tree.FitsMemory) (calm : tree.Calm) (reached : session.Reached tree) {σ : Type}
    (around : Surroundings (StateM σ)) (s : σ)
    : (session.flush around s).tree.snapshot = session.tree.snapshot := by
  have flushed := flushes_flush around session.tree s
  have sound := (reached.reachable built fits).sound
  exact flushed.snapshot_eq sound (reached.keeps.fitsMemory fits) (reached.keeps.calm calm)

/-- A red pixel between margins is still red when its strip has turned. -/
theorem still_red_after_rotation
    : ∃ tree,
        buildTree Catalog.standard 0 ⟨fun _ => 7⟩ "nav:1|rotate:0.5|[flip|null:3, null:2]"
          = .ok tree
        ∧ ∀ around : Surroundings (StateM Unit),
            (((start tree).set 0 Color.pureRed).flush around ()).tree.snapshot[0]?
            = some Color.pureRed := by
  have facts : (buildTree Catalog.standard 0 ⟨fun _ => 7⟩
      "nav:1|rotate:0.5|[flip|null:3, null:2]").map
      (fun tree => (tree.pixels, tree.count, tree.filters))
      = .ok (5, 3, [.nav, .remap, .flip]) := by
    decide +kernel
  obtain ⟨tree, built, facts⟩ := exists_of_map_eq_ok facts
  obtain ⟨pixels, facts⟩ := Prod.mk.inj facts
  obtain ⟨count, filters⟩ := Prod.mk.inj facts
  have fits : tree.FitsMemory := by
    rw [FitsMemory, pixels]
    decide
  have calm : tree.Calm := by
    rw [Calm, filters]
    decide
  have sound := (Reachable.built built fits).sound
  refine ⟨tree, built, ?_⟩
  intro around
  rw [snapshot_flush built fits calm (.set .start 0 Color.pureRed)]
  simp only [set, start, sound.snapshot_set]
  exact List.getElem?_set_self (by rw [length_snapshot, count]; decide)

end Session

end PixelTree
