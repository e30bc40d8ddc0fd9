import PixelTree.Node.Flush
import PixelTree.Proofs.Node.Sound

/-! A sound tree behaves like a plain array of its visible colors: whatever is written to it
changes the array as it would change any other, and nothing else.
-/

namespace PixelTree

/-- Visits the colors of a plain array in order, from a given index on. The visitor sees each
color as it was before the visit.
-/
def visitColors {σ : Type} (visitor : Nat → Color → σ → Color × σ)
    : Nat → List Color → σ → List Color × σ
  | _, [], state => ([], state)
  | index, color :: rest, state =>
    let (color, state) := visitor index color state
    let (rest, state) := visitColors visitor (index + 1) rest state
    (color :: rest, state)

theorem visitColors_const (color : Color) (index : Nat) (colors : List Color)
    : (visitColors (fun _ _ state => (color, state)) index colors ()).1
      = List.replicate colors.length color := by
  induction colors generalizing index with
  | nil => rfl
  | cons first rest ih =>
      rw [visitColors, List.length_cons, List.replicate_succ, ← ih (index + 1)]

namespace Node

theorem setEach_eq_visitEach (node : Node) (indices : List Nat) (color : Color)
    : node.setEach indices color
      = (visitEach (fun _ _ state => (color, state)) indices node ()).1 := by
  unfold setEach
  induction indices generalizing node with
  | nil => rfl
  | cons index rest ih => exact ih (node.set index color)

-----------------------------------------------------------------------------------------
-- Repainted trees
-----------------------------------------------------------------------------------------

/-- Only visible cells differ between two trees: neither a hidden cell, nor a table, nor what a
leaf remembers of its flushes.
-/
structure Repainted (node other : Node) : Prop where
  frame : other.dark = node.dark
  hidden : ∀ cell, (∀ index, node.place index ≠ some cell) → other.cell? cell = node.cell? cell

theorem Repainted.refl (node : Node) : Repainted node node :=
  ⟨rfl, fun _ _ => rfl⟩

theorem Repainted.symm {node other : Node} (repainted : Repainted node other)
    : Repainted other node := by
  refine ⟨repainted.frame.symm, ?_⟩
  intro cell unseen
  refine (repainted.hidden cell ?_).symm
  intro index
  rw [← place_eq_of_dark repainted.frame]
  exact unseen index

/-- Repainting composes: visible indices keep their places. -/
theorem Repainted.trans {node middle other : Node} (first : Repainted node middle)
    (second : Repainted middle other)
    : Repainted node other := by
  refine ⟨second.frame.trans first.frame, ?_⟩
  intro cell unseen
  have unseen' : ∀ index, middle.place index ≠ some cell := by
    intro index
    rw [place_eq_of_dark first.frame]
    exact unseen index
  exact (second.hidden cell unseen').trans (first.hidden cell unseen)

theorem repainted_set (node : Node) (index : Nat) (color : Color)
    : Repainted node (node.set index color) := by
  refine ⟨dark_set node index color, ?_⟩
  intro cell unseen
  rw [cell?_set, if_neg (unseen index)]

/-- Writes of one color repaint, by induction over their indices. -/
theorem repainted_setEach (node : Node) (indices : List Nat) (color : Color)
    : Repainted node (node.setEach indices color) := by
  unfold setEach
  induction indices generalizing node with
  | nil => exact .refl node
  | cons index rest ih => exact (repainted_set node index color).trans (ih _)

/-- Writes of several colors repaint, by induction over them. -/
theorem repainted_writeFrom (node : Node) (index : Nat) (colors : List Color)
    : Repainted node (node.writeFrom index colors) := by
  induction colors generalizing node index with
  | nil => exact .refl node
  | cons color rest ih => exact (repainted_set node index color).trans (ih _ _)

/-- Writes through a table repaint the inner node, by induction over the colors. -/
theorem repainted_writeThrough (table : Remap.Table) (inner : Node) (index : Nat)
    (colors : List Color)
    : Repainted inner (writeThrough table inner index colors) := by
  induction colors generalizing inner index with
  | nil => exact .refl inner
  | cons color rest ih =>
      unfold writeThrough
      split
      · next position _ => exact (repainted_set inner position color).trans (ih _ _)
      · exact ih _ _

/-- A visit repaints, by induction over the indices. -/
theorem repainted_visitEach {σ : Type} (visitor : Nat → Color → σ → Color × σ)
    (indices : List Nat) (node : Node) (state : σ)
    : Repainted node (visitEach visitor indices node state).1 := by
  induction indices generalizing node state with
  | nil => exact .refl node
  | cons index rest ih => exact (repainted_set node index _).trans (ih _ _)

-----------------------------------------------------------------------------------------
-- Snapshots
-----------------------------------------------------------------------------------------

@[simp] theorem length_snapshot (node : Node) : node.snapshot.length = node.count := by
  rw [snapshot, List.length_map, List.length_range]

theorem getElem?_snapshot {node : Node} {index : Nat} (visible : index < node.count)
    : node.snapshot[index]? = some (node.get index) := by
  rw [snapshot, List.getElem?_map, List.getElem?_range visible]
  rfl

/-- A repainted tree that shows the same colors is the same tree. -/
theorem Repainted.eq_of_get {node other : Node} (repainted : Repainted node other)
    (same : ∀ index, other.get index = node.get index)
    : other = node := by
  refine eq_of_dark_of_cells repainted.frame ?_
  intro cell
  by_cases shown : ∃ index, node.place index = some cell
  · obtain ⟨index, placed⟩ := shown
    have placed' : other.place index = some cell := by
      rwa [place_eq_of_dark repainted.frame]
    rw [cell?_place node placed, cell?_place other placed', same]
  · exact repainted.hidden cell (fun index placed => shown ⟨index, placed⟩)

/-- A repainted tree is known by its visible colors. -/
theorem Repainted.eq_of_visible {node other : Node} (repainted : Repainted node other)
    (same : ∀ index < node.count, other.get index = node.get index)
    : other = node := by
  refine repainted.eq_of_get ?_
  intro index
  rcases Nat.lt_or_ge index node.count with visible | past
  · exact same index visible
  · have past' : other.count ≤ index := by rwa [count_eq_of_dark repainted.frame]
    rw [get_of_le past, get_of_le past']

/-- A repainted tree is known by its snapshot. -/
theorem Repainted.eq_of_snapshot {node other : Node} (repainted : Repainted node other)
    (same : other.snapshot = node.snapshot)
    : other = node := by
  refine repainted.eq_of_visible ?_
  intro index visible
  have visible' : index < other.count := by rwa [count_eq_of_dark repainted.frame]
  have shown := getElem?_snapshot visible'
  rw [same, getElem?_snapshot visible] at shown
  exact (Option.some.inj shown).symm

namespace Sound

variable {node : Node}

theorem exists_place (sound : node.Sound) {index : Nat} (visible : index < node.count)
    : ∃ cell, node.place index = some cell :=
  Option.isSome_iff_exists.mp ((isSome_place node sound index).mpr visible)

/-- What was written is read at its index and at no other one. -/
theorem get_set (sound : node.Sound) {index : Nat} (visible : index < node.count) (color : Color)
    (other : Nat)
    : (node.set index color).get other = if other = index then color else node.get other := by
  obtain ⟨cell, placed⟩ := sound.exists_place visible
  have places := place_eq_of_dark (dark_set node index color) other
  cases target : node.place other with
  | none =>
      have differ : other ≠ index := by
        rintro rfl
        rw [placed] at target
        cases target
      rw [if_neg differ, get_of_not_placed node target,
        get_of_not_placed _ (places.trans target)]
  | some cell' =>
      have written := cell?_place _ (places.trans target)
      rw [cell?_set, placed, cell?_place node target] at written
      by_cases same : other = index
      · subst same
        obtain rfl := Option.some.inj (placed.symm.trans target)
        rw [if_pos rfl, Option.some.injEq] at written
        rw [if_pos rfl]
        exact written.symm
      · have differ : some cell ≠ some cell' := by
          intro equal
          rw [equal] at placed
          exact same (place_inj node sound target placed)
        rw [if_neg differ, Option.some.injEq] at written
        rw [if_neg same]
        exact written.symm

/-- A write changes a snapshot as it changes a plain array. -/
theorem snapshot_set (sound : node.Sound) (index : Nat) (color : Color)
    : (node.set index color).snapshot = node.snapshot.set index color := by
  rcases Nat.lt_or_ge index node.count with visible | past
  · have counts := count_eq_of_dark (dark_set node index color)
    apply List.ext_getElem?
    intro other
    rw [List.getElem?_set, length_snapshot]
    rcases Nat.lt_or_ge other node.count with inside | outside
    · rw [getElem?_snapshot (counts ▸ inside), sound.get_set visible, getElem?_snapshot inside]
      by_cases same : other = index
      · subst same
        simp [visible]
      · have differ : index ≠ other := fun equal => same equal.symm
        rw [if_neg same, if_neg differ]
    · have differ : index ≠ other := by omega
      rw [if_neg differ, List.getElem?_eq_none (by rw [length_snapshot, counts]; exact outside),
        List.getElem?_eq_none (by rw [length_snapshot]; exact outside)]
  · rw [set_of_le past, List.set_eq_of_length_le (by rw [length_snapshot]; exact past)]

/-- A visit of the last pixels acts as on a plain array, by induction over their number: earlier
pixels have been written and later ones show what they showed before the visit.
-/
theorem snapshot_visitEach (sound : node.Sound) {σ : Type}
    (visitor : Nat → Color → σ → Color × σ) (state : σ) {start number : Nat}
    (whole : start + number = node.count)
    : ((visitEach visitor (List.range' start number) node state).1.snapshot
        = node.snapshot.take start
          ++ (visitColors visitor start (node.snapshot.drop start) state).1)
      ∧ (visitEach visitor (List.range' start number) node state).2
        = (visitColors visitor start (node.snapshot.drop start) state).2 := by
  induction number generalizing node start state with
  | zero =>
      have past : node.snapshot.length ≤ start := by
        rw [length_snapshot]
        omega
      rw [List.drop_eq_nil_of_le past, List.take_of_length_le past]
      exact ⟨(List.append_nil _).symm, rfl⟩
  | succ number ih =>
      have visible : start < node.count := by omega
      have inside : start < node.snapshot.length := by rwa [length_snapshot]
      have first : node.snapshot.drop start
          = node.get start :: node.snapshot.drop (start + 1) := by
        obtain ⟨_, shown⟩ := List.getElem?_eq_some_iff.mp (getElem?_snapshot visible)
        rw [List.drop_eq_getElem_cons inside, shown]
      let answer := visitor start (node.get start) state
      have frame := dark_set node start answer.1
      -- One more pixel is behind the visit, and the pixels ahead show what they showed.
      have written : (node.set start answer.1).snapshot
          = (node.snapshot.take start ++ [answer.1]) ++ node.snapshot.drop (start + 1) := by
        rw [sound.snapshot_set, List.set_eq_take_append_cons_drop, if_pos inside, List.append_assoc,
          List.singleton_append]
      have before : (node.snapshot.take start ++ [answer.1]).length = start + 1 := by
        rw [List.length_append, List.length_take_of_le (Nat.le_of_lt inside), List.length_singleton]
      have fewer : start + 1 + number = (node.set start answer.1).count := by
        rw [count_eq_of_dark frame]
        omega
      have rest := ih (sound.of_dark frame) answer.2 fewer
      rw [written, List.take_left' before, List.drop_left' before] at rest
      obtain ⟨colors, states⟩ := rest
      rw [first, List.range'_succ]
      refine ⟨?_, states⟩
      rw [visitEach, colors, List.append_assoc]
      rfl

theorem snapshot_visit (sound : node.Sound) {σ : Type} (visitor : Nat → Color → σ → Color × σ)
    (state : σ)
    : ((node.visit visitor state).1.snapshot, (node.visit visitor state).2)
      = visitColors visitor 0 node.snapshot state := by
  have whole := sound.snapshot_visitEach visitor state (Nat.zero_add node.count)
  rw [← List.range_eq_range', List.drop_zero, List.take_zero, List.nil_append] at whole
  exact Prod.ext whole.1 whole.2

theorem snapshot_setAll (sound : node.Sound) (color : Color)
    : (node.setAll color).snapshot = List.replicate node.count color := by
  have whole := congrArg Prod.fst (sound.snapshot_visit (fun _ _ state => (color, state)) ())
  rw [visitColors_const, length_snapshot] at whole
  rw [setAll, setEach_eq_visitEach]
  exact whole

end Sound

-----------------------------------------------------------------------------------------
-- Trees as arrays
-----------------------------------------------------------------------------------------

/-- A tree is an array of independent pixels: its visible indices have cells of their own, a read
shows the cell of its index and a write changes that cell and nothing else, so that all that is
done to the tree is done to its snapshot as to a plain array.
-/
structure IsArray (node : Node) : Prop where
  placed
    : ∀ index, index < node.count →
        ∃ cell, node.place index = some cell ∧ node.cell? cell = some (node.get index)
  injective
    : ∀ {index other cell},
        node.place index = some cell → node.place other = some cell → index = other
  get_past : ∀ index, node.count ≤ index → node.get index = Color.black
  set_frame : ∀ index color, (node.set index color).dark = node.dark
  set_cell
    : ∀ {index cell} color, node.place index = some cell →
        ∀ other, (node.set index color).cell? other
          = if other = cell then some color else node.cell? other
  set_past : ∀ index color, node.count ≤ index → node.set index color = node
  /-- There is nothing in a tree but what is left of it in black, and its cells. -/
  parts
    : ∀ other : Node,
        other.dark = node.dark → (∀ cell, other.cell? cell = node.cell? cell) → other = node
  /-- There is nothing to see of a tree but its snapshot. -/
  known
    : ∀ other : Node, Repainted node other → other.snapshot = node.snapshot → other = node
  snapshot_set : ∀ index color, (node.set index color).snapshot = node.snapshot.set index color
  setAll
    : ∀ color, Repainted node (node.setAll color)
        ∧ (node.setAll color).snapshot = List.replicate node.count color
  clear
    : Repainted node node.clear ∧ node.clear.snapshot = List.replicate node.count Color.black
  visit
    : ∀ {σ : Type} (visitor : Nat → Color → σ → Color × σ) (state : σ),
        Repainted node (node.visit visitor state).1
        ∧ ((node.visit visitor state).1.snapshot, (node.visit visitor state).2)
          = visitColors visitor 0 node.snapshot state
  onto
    : node.NavFree → ∀ cell, (node.cell? cell).isSome →
        ∃ index, index < node.count ∧ node.place index = some cell

/-- A sound tree is an array. -/
theorem Sound.isArray {node : Node} (sound : node.Sound) : node.IsArray where
  placed := by
    intro index visible
    obtain ⟨cell, placed⟩ := sound.exists_place visible
    exact ⟨cell, placed, cell?_place node placed⟩
  injective := place_inj node sound
  get_past := by
    intro index past
    exact get_of_le past
  set_frame := dark_set node
  set_cell := by
    intro index cell color placed other
    rw [cell?_set, placed]
    simp only [Option.some.injEq, @eq_comm Cell cell other]
  set_past := by
    intro index color past
    exact set_of_le past color
  parts := fun other => eq_of_dark_of_cells
  known := fun _ repainted => repainted.eq_of_snapshot
  snapshot_set := sound.snapshot_set
  setAll := by
    intro color
    exact ⟨repainted_setEach node _ color, sound.snapshot_setAll color⟩
  clear := ⟨repainted_setEach node _ Color.black, sound.snapshot_setAll Color.black⟩
  visit := by
    intro σ visitor state
    exact ⟨repainted_visitEach visitor _ node state, sound.snapshot_visit visitor state⟩
  onto := by
    intro free cell colored
    obtain ⟨index, placed⟩ := Node.exists_place node sound free colored
    exact ⟨index, (isSome_place node sound index).mp (by rw [placed]; rfl), placed⟩

end Node

end PixelTree
