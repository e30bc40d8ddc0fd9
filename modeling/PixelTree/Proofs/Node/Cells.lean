import PixelTree.Node.Basic

/-! The cells of a tree: the pixels of its leaves. A visible index has a place among them, which
is where it is read and written; everything else in a tree is kept by a write.
-/

namespace PixelTree

/-- A pixel of a leaf. Leaves are numbered from left to right. -/
structure Cell where
  leaf : Nat
  index : Nat
deriving DecidableEq

namespace Cell

/-- The cell when more leaves stand before its own. -/
def behind (leaves : Nat) (cell : Cell) : Cell :=
  ⟨leaves + cell.leaf, cell.index⟩

/-- The color of a cell of some leaves. -/
def color? (strips : List Strip) (cell : Cell) : Option Color :=
  strips[cell.leaf]?.bind (fun strip => strip.pixels[cell.index]?)

theorem leaf_lt_of_color? {strips : List Strip} {cell : Cell} {color : Color}
    (found : cell.color? strips = some color)
    : cell.leaf < strips.length := by
  obtain ⟨strip, atLeaf, _⟩ := Option.bind_eq_some_iff.mp found
  exact (List.getElem?_eq_some_iff.mp atLeaf).1

theorem color?_append_left {cell : Cell} {front : List Strip} (rest : List Strip)
    (inFront : cell.leaf < front.length)
    : cell.color? (front ++ rest) = cell.color? front := by
  rw [color?, List.getElem?_append_left inFront, color?]

theorem color?_append_behind (cell : Cell) (front rest : List Strip)
    : (cell.behind front.length).color? (front ++ rest) = cell.color? rest := by
  rw [color?, behind, List.getElem?_append_right (Nat.le_add_right _ _), Nat.add_sub_cancel_left,
    color?]

/-- A cell is within the leaves that stand before some others or behind them. -/
theorem lt_or_exists_behind (cell : Cell) (leaves : Nat)
    : cell.leaf < leaves ∨ ∃ later : Cell, cell = later.behind leaves := by
  rcases Nat.lt_or_ge cell.leaf leaves with before | reached
  · exact Or.inl before
  · refine Or.inr ⟨⟨cell.leaf - leaves, cell.index⟩, ?_⟩
    rw [behind, Nat.add_sub_cancel' reached]

theorem behind_inj {leaves : Nat} {cell other : Cell}
    : cell.behind leaves = other.behind leaves ↔ cell = other := by
  obtain ⟨leaf, index⟩ := cell
  obtain ⟨leaf', index'⟩ := other
  simp [behind]

end Cell

namespace Strip

/-- The cell of an index of a single leaf. -/
def place (strip : Strip) (index : Nat) : Option Cell :=
  if index < strip.size then some ⟨0, index⟩ else none

/-- A strip of the same size in black. -/
def darkened (strip : Strip) : Strip :=
  dark strip.size

@[simp] theorem size_set (strip : Strip) (index : Nat) (color : Color)
    : (strip.set index color).size = strip.size :=
  Array.size_setIfInBounds

@[simp] theorem size_darkened (strip : Strip) : strip.darkened.size = strip.size :=
  Array.size_replicate

theorem isSome_place (strip : Strip) (index : Nat)
    : (strip.place index).isSome ↔ index < strip.size := by
  unfold place
  split
  · next inside => simp [inside]
  · next outside => simp [outside]

/-- Different indices of a single leaf have different places. -/
theorem place_inj {strip : Strip} {index other : Nat} {cell : Cell}
    (placed : strip.place index = some cell) (placed' : strip.place other = some cell)
    : index = other := by
  have cells : ∀ {index}, strip.place index = some cell → cell = ⟨0, index⟩ := by
    intro index found
    unfold place at found
    split at found
    · exact (Option.some.inj found).symm
    · cases found
  exact congrArg Cell.index ((cells placed).symm.trans (cells placed'))

theorem exists_place {strip : Strip} {cell : Cell} (colored : (cell.color? [strip]).isSome)
    : ∃ index, strip.place index = some cell := by
  obtain ⟨leaf, index⟩ := cell
  cases leaf with
  | zero =>
      have inside : index < strip.pixels.size := by simpa [Cell.color?] using colored
      exact ⟨index, if_pos inside⟩
  | succ leaf => cases colored

/-- A single leaf is read at the place of an index. -/
theorem color?_place {strip : Strip} {index : Nat} {cell : Cell}
    (placed : strip.place index = some cell)
    : cell.color? [strip] = some (strip.get index) := by
  unfold place at placed
  split at placed
  · next inside =>
      obtain rfl := Option.some.inj placed
      have inside : index < strip.pixels.size := inside
      simp [Cell.color?, get, inside]
  · cases placed

theorem get_of_not_placed {strip : Strip} {index : Nat} (absent : strip.place index = none)
    : strip.get index = Color.black := by
  unfold place at absent
  split at absent
  · cases absent
  · next outside =>
      have outside : strip.pixels.size ≤ index := Nat.not_lt.mp outside
      simp [get, outside]

/-- A single leaf is written at the place of an index. -/
theorem color?_set (strip : Strip) (index : Nat) (color : Color) (cell : Cell)
    : cell.color? [strip.set index color]
      = if strip.place index = some cell then some color else cell.color? [strip] := by
  obtain ⟨leaf, position⟩ := cell
  cases leaf with
  | zero =>
      have same : strip.place index = some ⟨0, position⟩
          ↔ index = position ∧ index < strip.pixels.size := by
        unfold place size
        split
        · next inside => simp [inside]
        · next outside => simp [outside]
      simp only [Cell.color?, List.getElem?_cons_zero, Option.bind_some, set,
        Array.getElem?_setIfInBounds, same]
      by_cases equal : index = position
      · subst equal
        by_cases inside : index < strip.pixels.size
        · simp [inside]
        · simp [inside]
      · simp [equal]
  | succ leaf =>
      have elsewhere : strip.place index ≠ some ⟨leaf + 1, position⟩ := by
        unfold place
        split <;> simp
      simp [Cell.color?, elsewhere]

end Strip

namespace Node

-----------------------------------------------------------------------------------------
-- What a tree consists of
-----------------------------------------------------------------------------------------

mutual
/-- The strips of all leaves from left to right. -/
def strips : Node → List Strip
  | .null device => [device.strip]
  | .ck output => [output.strip]
  | .tap device => [device.strip]
  | .list _ _ members => stripsOf members
  | .flip inner => inner.strips
  | .remap _ inner => inner.strips
  | .solid _ inner => inner.strips
  | .gradient _ _ inner => inner.strips
  | .sparkle _ inner => inner.strips
  | .nav _ inner => inner.strips

/-- The strips of all leaves of several trees. -/
def stripsOf : List Node → List Strip
  | [] => []
  | node :: rest => node.strips ++ stripsOf rest
end

mutual
/-- The tree with every leaf in black. All else is kept: tables, sparkles, and what the leaves
remember of their flushes. -/
def dark : Node → Node
  | .null device => .null { device with strip := device.strip.darkened }
  | .ck output => .ck { output with strip := output.strip.darkened }
  | .tap device => .tap { device with strip := device.strip.darkened }
  | .list spacing counts members => .list spacing counts (darkAll members)
  | .flip inner => .flip inner.dark
  | .remap table inner => .remap table inner.dark
  | .solid paint inner => .solid paint inner.dark
  | .gradient start goal inner => .gradient start goal inner.dark
  | .sparkle state inner => .sparkle state inner.dark
  | .nav margin inner => .nav margin inner.dark

/-- Several trees with every leaf in black. -/
def darkAll : List Node → List Node
  | [] => []
  | node :: rest => node.dark :: darkAll rest
end

/-- The color of a cell of the tree, if it has the cell. -/
def cell? (node : Node) (cell : Cell) : Option Color :=
  cell.color? node.strips

mutual
/-- The cell that a visible index is read from and written to. -/
def place : Node → Nat → Option Cell
  | .null device, index => device.strip.place index
  | .ck output, index => output.strip.place index
  | .tap device, index => device.strip.place index
  | .list _ counts members, index =>
    (locate counts index).bind (fun found => placeMember members found.1 found.2)
  | .flip inner, index => (opposite? inner.count index).bind inner.place
  | .remap table inner, index => (table.index? index).bind inner.place
  | .solid _ inner, index => inner.place index
  | .gradient _ _ inner, index => inner.place index
  | .sparkle _ inner, index => inner.place index
  | .nav margin inner, index =>
    if index < visibleCount inner.count margin then inner.place (index + margin) else none

/-- The cell of an index of one of several nodes. -/
def placeMember : List Node → Nat → Nat → Option Cell
  | [], _, _ => none
  | node :: _, 0, index => node.place index
  | node :: rest, member + 1, index =>
    (placeMember rest member index).map (Cell.behind node.strips.length)
end

-----------------------------------------------------------------------------------------
-- Reading
-----------------------------------------------------------------------------------------

mutual
/-- A tree is read at the place of an index, by induction over the tree. -/
theorem cell?_place (node : Node) {index : Nat} {cell : Cell}
    (placed : node.place index = some cell)
    : node.cell? cell = some (node.get index) := by
  cases node with
  | null device => exact Strip.color?_place placed
  | ck output => exact Strip.color?_place placed
  | tap device => exact Strip.color?_place placed
  | list spacing counts members =>
      obtain ⟨⟨member, position⟩, found, placed⟩ := Option.bind_eq_some_iff.mp placed
      simp only [get, found]
      exact color?_placeMember members placed
  | flip inner =>
      obtain ⟨position, found, placed⟩ := Option.bind_eq_some_iff.mp placed
      simp only [get, found]
      exact cell?_place inner placed
  | remap table inner =>
      obtain ⟨position, found, placed⟩ := Option.bind_eq_some_iff.mp placed
      simp only [get, found]
      exact cell?_place inner placed
  | solid paint inner => exact cell?_place inner placed
  | gradient start goal inner => exact cell?_place inner placed
  | sparkle state inner => exact cell?_place inner placed
  | nav margin inner =>
      simp only [place] at placed
      split at placed
      · next visible =>
          simp only [get, if_pos visible]
          exact cell?_place inner placed
      · cases placed

theorem color?_placeMember (members : List Node) {member index : Nat} {cell : Cell}
    (placed : placeMember members member index = some cell)
    : cell.color? (stripsOf members) = some (getMember members member index) := by
  cases members with
  | nil => cases placed
  | cons node rest =>
      cases member with
      | zero =>
          have read : node.cell? cell = some (node.get index) := cell?_place node placed
          rw [stripsOf, Cell.color?_append_left _ (Cell.leaf_lt_of_color? read)]
          exact read
      | succ member =>
          obtain ⟨later, further, rfl⟩ := Option.map_eq_some_iff.mp placed
          rw [stripsOf, Cell.color?_append_behind]
          exact color?_placeMember rest further
end

mutual
/-- Where an index has no place a tree is black, by induction over the tree. -/
theorem get_of_not_placed (node : Node) {index : Nat} (absent : node.place index = none)
    : node.get index = Color.black := by
  cases node with
  | null device => exact Strip.get_of_not_placed absent
  | ck output => exact Strip.get_of_not_placed absent
  | tap device => exact Strip.get_of_not_placed absent
  | list spacing counts members =>
      simp only [get]
      split
      · next member position found =>
          simp only [place, found, Option.bind_some] at absent
          exact getMember_of_not_placed members absent
      · rfl
  | flip inner =>
      simp only [get]
      split
      · next position found =>
          simp only [place, found, Option.bind_some] at absent
          exact get_of_not_placed inner absent
      · rfl
  | remap table inner =>
      simp only [get]
      split
      · next position found =>
          simp only [place, found, Option.bind_some] at absent
          exact get_of_not_placed inner absent
      · rfl
  | solid paint inner => exact get_of_not_placed inner absent
  | gradient start goal inner => exact get_of_not_placed inner absent
  | sparkle state inner => exact get_of_not_placed inner absent
  | nav margin inner =>
      simp only [get]
      split
      · next visible =>
          simp only [place, if_pos visible] at absent
          exact get_of_not_placed inner absent
      · rfl

theorem getMember_of_not_placed (members : List Node) {member index : Nat}
    (absent : placeMember members member index = none)
    : getMember members member index = Color.black := by
  cases members with
  | nil => rfl
  | cons node rest =>
      cases member with
      | zero => exact get_of_not_placed node absent
      | succ member =>
          rw [placeMember, Option.map_eq_none_iff] at absent
          exact getMember_of_not_placed rest absent
end

-----------------------------------------------------------------------------------------
-- Writing
-----------------------------------------------------------------------------------------

mutual
/-- A write leaves everything but the colors of leaves alone, by induction over the tree. -/
theorem dark_set (node : Node) (index : Nat) (color : Color)
    : (node.set index color).dark = node.dark := by
  cases node with
  | null device => simp only [set, dark, Strip.darkened, Strip.size_set]
  | ck output => simp only [set, dark, Strip.darkened, Strip.size_set]
  | tap device => simp only [set, dark, Strip.darkened, Strip.size_set]
  | list spacing counts members =>
      simp only [set]
      split
      · simp only [dark, darkAll_setMember members]
      · rfl
  | flip inner =>
      simp only [set]
      split
      · simp only [dark, dark_set inner]
      · rfl
  | remap table inner =>
      simp only [set]
      split
      · simp only [dark, dark_set inner]
      · rfl
  | solid paint inner => simp only [set, dark, dark_set inner]
  | gradient start goal inner => simp only [set, dark, dark_set inner]
  | sparkle state inner => simp only [set, dark, dark_set inner]
  | nav margin inner =>
      simp only [set]
      split
      · simp only [dark, dark_set inner]
      · rfl

theorem darkAll_setMember (members : List Node) (member index : Nat) (color : Color)
    : darkAll (setMember members member index color) = darkAll members := by
  cases members with
  | nil => rfl
  | cons node rest =>
      cases member with
      | zero => simp only [setMember, darkAll, dark_set node]
      | succ member => simp only [setMember, darkAll, darkAll_setMember rest]
end

mutual
/-- The leaves of the dark tree are those of the tree in black. -/
theorem strips_dark (node : Node) : node.dark.strips = node.strips.map Strip.darkened := by
  cases node with
  | null device => rfl
  | ck output => rfl
  | tap device => rfl
  | list spacing counts members => exact stripsOf_darkAll members
  | flip inner => exact strips_dark inner
  | remap table inner => exact strips_dark inner
  | solid paint inner => exact strips_dark inner
  | gradient start goal inner => exact strips_dark inner
  | sparkle state inner => exact strips_dark inner
  | nav margin inner => exact strips_dark inner

theorem stripsOf_darkAll (members : List Node)
    : stripsOf (darkAll members) = (stripsOf members).map Strip.darkened := by
  cases members with
  | nil => rfl
  | cons node rest =>
      rw [darkAll, stripsOf, stripsOf, List.map_append, strips_dark node, stripsOf_darkAll rest]
end

theorem length_strips_eq {node other : Node} (same : other.dark = node.dark)
    : other.strips.length = node.strips.length := by
  have lengths := congrArg (fun tree => tree.strips.length) same
  simpa only [strips_dark, List.length_map] using lengths

mutual
/-- A write changes the cell at the place of its index and no other cell, by induction over the
tree. Within a list the leaves of the other members stand before or behind those that change.
-/
theorem cell?_set (node : Node) (index : Nat) (color : Color) (cell : Cell)
    : (node.set index color).cell? cell
      = if node.place index = some cell then some color else node.cell? cell := by
  cases node with
  | null device => exact Strip.color?_set device.strip index color cell
  | ck output => exact Strip.color?_set output.strip index color cell
  | tap device => exact Strip.color?_set device.strip index color cell
  | list spacing counts members =>
      cases found : locate counts index with
      | none => simp [set, place, found]
      | some target =>
          simp only [set, place, found, Option.bind_some]
          exact color?_setMember members target.1 target.2 color cell
  | flip inner =>
      cases found : opposite? inner.count index with
      | none => simp [set, place, found]
      | some position =>
          simp only [set, place, found, Option.bind_some]
          exact cell?_set inner position color cell
  | remap table inner =>
      cases found : table.index? index with
      | none => simp [set, place, found]
      | some position =>
          simp only [set, place, found, Option.bind_some]
          exact cell?_set inner position color cell
  | solid paint inner => exact cell?_set inner index color cell
  | gradient start goal inner => exact cell?_set inner index color cell
  | sparkle state inner => exact cell?_set inner index color cell
  | nav margin inner =>
      simp only [set, place]
      split
      · exact cell?_set inner (index + margin) color cell
      · rfl

theorem color?_setMember (members : List Node) (member index : Nat) (color : Color) (cell : Cell)
    : cell.color? (stripsOf (setMember members member index color))
      = if placeMember members member index = some cell then some color
        else cell.color? (stripsOf members) := by
  cases members with
  | nil => rfl
  | cons node rest =>
      cases member with
      | zero =>
          have leaves := length_strips_eq (dark_set node index color)
          rcases cell.lt_or_exists_behind node.strips.length with inside | ⟨later, rfl⟩
          · rw [setMember, stripsOf, stripsOf, Cell.color?_append_left _ (leaves ▸ inside),
              Cell.color?_append_left _ inside]
            exact cell?_set node index color cell
          -- A write to the first member reaches no cell behind its leaves.
          · have elsewhere : placeMember (node :: rest) 0 index
                ≠ some (later.behind node.strips.length) := by
              intro placed
              have inside := Cell.leaf_lt_of_color? (cell?_place node placed)
              simp only [Cell.behind] at inside
              omega
            rw [setMember, stripsOf, stripsOf, if_neg elsewhere, Cell.color?_append_behind,
              ← leaves, Cell.color?_append_behind]
      | succ member =>
          rcases cell.lt_or_exists_behind node.strips.length with inside | ⟨later, rfl⟩
          -- A write to a later member reaches no cell of the first one.
          · have elsewhere : placeMember (node :: rest) (member + 1) index ≠ some cell := by
              intro placed
              obtain ⟨later, _, rfl⟩ := Option.map_eq_some_iff.mp placed
              simp only [Cell.behind] at inside
              omega
            rw [setMember, stripsOf, stripsOf, if_neg elsewhere,
              Cell.color?_append_left _ inside, Cell.color?_append_left _ inside]
          · have same : placeMember (node :: rest) (member + 1) index
                  = some (later.behind node.strips.length)
                ↔ placeMember rest member index = some later := by
              simp [placeMember, Cell.behind_inj]
            rw [setMember, stripsOf, stripsOf, Cell.color?_append_behind,
              Cell.color?_append_behind, color?_setMember rest member index color later]
            simp only [same]
end

-----------------------------------------------------------------------------------------
-- Trees with the same parts
-----------------------------------------------------------------------------------------

mutual
/-- The tree with the first of some strips in its leaves, and the strips that are left. -/
def refill : Node → List Strip → Node × List Strip
  | .null device, strips =>
    (.null { device with strip := strips.head?.getD device.strip }, strips.tail)
  | .ck output, strips =>
    (.ck { output with strip := strips.head?.getD output.strip }, strips.tail)
  | .tap device, strips =>
    (.tap { device with strip := strips.head?.getD device.strip }, strips.tail)
  | .list spacing counts members, strips =>
    let (members, rest) := refillAll members strips
    (.list spacing counts members, rest)
  | .flip inner, strips =>
    let (inner, rest) := inner.refill strips
    (.flip inner, rest)
  | .remap table inner, strips =>
    let (inner, rest) := inner.refill strips
    (.remap table inner, rest)
  | .solid paint inner, strips =>
    let (inner, rest) := inner.refill strips
    (.solid paint inner, rest)
  | .gradient start goal inner, strips =>
    let (inner, rest) := inner.refill strips
    (.gradient start goal inner, rest)
  | .sparkle state inner, strips =>
    let (inner, rest) := inner.refill strips
    (.sparkle state inner, rest)
  | .nav margin inner, strips =>
    let (inner, rest) := inner.refill strips
    (.nav margin inner, rest)

/-- Several trees with the first of some strips in their leaves, and the strips that are left. -/
def refillAll : List Node → List Strip → List Node × List Strip
  | [], strips => ([], strips)
  | node :: rest, strips =>
    let (node, strips) := node.refill strips
    let (rest, strips) := refillAll rest strips
    (node :: rest, strips)
end

mutual
/-- A tree is its dark tree with its own strips. -/
theorem refill_dark (node : Node) (rest : List Strip)
    : node.dark.refill (node.strips ++ rest) = (node, rest) := by
  cases node with
  | null device => rfl
  | ck output => rfl
  | tap device => rfl
  | list spacing counts members =>
      simp only [dark, strips, refill, refillAll_darkAll members rest]
  | flip inner => simp only [dark, strips, refill, refill_dark inner rest]
  | remap table inner => simp only [dark, strips, refill, refill_dark inner rest]
  | solid paint inner => simp only [dark, strips, refill, refill_dark inner rest]
  | gradient start goal inner => simp only [dark, strips, refill, refill_dark inner rest]
  | sparkle state inner => simp only [dark, strips, refill, refill_dark inner rest]
  | nav margin inner => simp only [dark, strips, refill, refill_dark inner rest]

theorem refillAll_darkAll (members : List Node) (rest : List Strip)
    : refillAll (darkAll members) (stripsOf members ++ rest) = (members, rest) := by
  cases members with
  | nil => rfl
  | cons node others =>
      simp only [darkAll, stripsOf, List.append_assoc, refillAll, refill_dark node,
        refillAll_darkAll others]
end

/-- Trees with the same leaves that are the same in black are the same. -/
theorem eq_of_dark_of_strips {node other : Node} (frame : other.dark = node.dark)
    (leaves : other.strips = node.strips)
    : other = node := by
  have fromOther := refill_dark other []
  have fromNode := refill_dark node []
  rw [frame, leaves, fromNode] at fromOther
  exact (congrArg Prod.fst fromOther).symm

/-- Trees that are the same in black have leaves of the same sizes. -/
theorem size_eq_of_dark {node other : Node} {strip other' : Strip} {leaf : Nat}
    (frame : other.dark = node.dark) (found : node.strips[leaf]? = some strip)
    (found' : other.strips[leaf]? = some other')
    : other'.size = strip.size := by
  have same := congrArg (fun tree => tree.strips[leaf]?.map Strip.size) frame
  simpa [strips_dark, found, found'] using same

/-- Trees with the same cells that are the same in black are the same. -/
theorem eq_of_dark_of_cells {node other : Node} (frame : other.dark = node.dark)
    (cells : ∀ cell, other.cell? cell = node.cell? cell)
    : other = node := by
  refine eq_of_dark_of_strips frame ?_
  apply List.ext_getElem (length_strips_eq frame)
  intro leaf inOther inNode
  have found := List.getElem?_eq_getElem inNode
  have found' := List.getElem?_eq_getElem inOther
  have sizes := size_eq_of_dark frame found found'
  have pixels : other.strips[leaf].pixels = node.strips[leaf].pixels := by
    refine Array.ext_getElem? ?_
    intro index
    have same := cells ⟨leaf, index⟩
    simpa only [cell?, Cell.color?, found, found', Option.bind_some] using same
  rw [← Strip.mk.injEq] at pixels
  exact pixels

theorem set_of_not_placed {node : Node} {index : Nat} (absent : node.place index = none)
    (color : Color)
    : node.set index color = node := by
  refine eq_of_dark_of_cells (dark_set node index color) ?_
  intro cell
  rw [cell?_set, absent, if_neg (by simp)]

-----------------------------------------------------------------------------------------
-- Colors do not matter for places
-----------------------------------------------------------------------------------------

theorem count_dark (node : Node) : node.dark.count = node.count := by
  induction node using count.induct with
  | _ => simp_all [dark, count]

theorem counts_darkAll (members : List Node) : (darkAll members).map count = members.map count := by
  induction members with
  | nil => rfl
  | cons node rest ih => rw [darkAll, List.map_cons, List.map_cons, count_dark, ih]

mutual
/-- The places of indices in the dark tree are those in the tree. -/
theorem place_dark (node : Node) (index : Nat) : node.dark.place index = node.place index := by
  cases node with
  | null device => simp only [dark, place, Strip.place, Strip.size_darkened]
  | ck output => simp only [dark, place, Strip.place, Strip.size_darkened]
  | tap device => simp only [dark, place, Strip.place, Strip.size_darkened]
  | list spacing counts members => simp only [dark, place, placeMember_darkAll members]
  | flip inner =>
      have places : inner.dark.place = inner.place := funext (place_dark inner)
      simp only [dark, place, count_dark, places]
  | remap table inner =>
      have places : inner.dark.place = inner.place := funext (place_dark inner)
      simp only [dark, place, places]
  | solid paint inner => exact place_dark inner index
  | gradient start goal inner => exact place_dark inner index
  | sparkle state inner => exact place_dark inner index
  | nav margin inner => simp only [dark, place, count_dark, place_dark inner]

theorem placeMember_darkAll (members : List Node) (member index : Nat)
    : placeMember (darkAll members) member index = placeMember members member index := by
  cases members with
  | nil => rfl
  | cons node rest =>
      cases member with
      | zero => exact place_dark node index
      | succ member =>
          rw [darkAll, placeMember, placeMember, placeMember_darkAll rest, strips_dark,
            List.length_map]
end

theorem count_eq_of_dark {node other : Node} (frame : other.dark = node.dark)
    : other.count = node.count := by
  rw [← count_dark other, frame, count_dark]

theorem place_eq_of_dark {node other : Node} (frame : other.dark = node.dark) (index : Nat)
    : other.place index = node.place index := by
  rw [← place_dark other, frame, place_dark]

-----------------------------------------------------------------------------------------
-- Indices past the end
-----------------------------------------------------------------------------------------

/-- An index belongs to no member exactly if it is past all of them. -/
theorem locate_eq_none_iff {counts : List Nat} {index : Nat}
    : locate counts index = none ↔ counts.foldr (· + ·) 0 ≤ index := by
  induction counts generalizing index with
  | nil => simp [locate]
  | cons count counts ih =>
      rw [locate, List.foldr_cons]
      split
      · next inside =>
          simp only [reduceCtorEq, false_iff]
          omega
      · next outside =>
          rw [Option.map_eq_none_iff, ih]
          omega

/-- An index past the end has no place, by induction over the filters. -/
theorem place_of_le (node : Node) {index : Nat} (past : node.count ≤ index)
    : node.place index = none := by
  cases node with
  | null device => exact if_neg (Nat.not_lt.mpr past)
  | ck output => exact if_neg (Nat.not_lt.mpr past)
  | tap device => exact if_neg (Nat.not_lt.mpr past)
  | list spacing counts members => rw [place, locate_eq_none_iff.mpr past, Option.bind_none]
  | flip inner =>
      have outside : ¬ index < inner.count := Nat.not_lt.mpr past
      rw [place, opposite?, if_neg outside, Option.bind_none]
  | remap table inner =>
      rw [place, Remap.Table.index?, Array.getElem?_eq_none past, Option.bind_none]
  | solid paint inner => exact place_of_le inner past
  | gradient start goal inner => exact place_of_le inner past
  | sparkle state inner => exact place_of_le inner past
  | nav margin inner => exact if_neg (Nat.not_lt.mpr past)

theorem get_of_le {node : Node} {index : Nat} (past : node.count ≤ index)
    : node.get index = Color.black :=
  get_of_not_placed node (place_of_le node past)

theorem set_of_le {node : Node} {index : Nat} (past : node.count ≤ index) (color : Color)
    : node.set index color = node :=
  set_of_not_placed (place_of_le node past) color

@[simp] theorem count_set (node : Node) (index : Nat) (color : Color)
    : (node.set index color).count = node.count :=
  count_eq_of_dark (dark_set node index color)

-----------------------------------------------------------------------------------------
-- Indices along lists
-----------------------------------------------------------------------------------------

/-- An index of a list is one of its first member, or one of the list of the others. -/
theorem get_list_cons (spacing size : Nat) (sizes : List Nat) (first : Node) (rest : List Node)
    (index : Nat)
    : (Node.list spacing (size :: sizes) (first :: rest)).get index
      = if index < size then first.get index
        else (Node.list spacing sizes rest).get (index - size) := by
  rw [get, get, locate]
  by_cases inside : index < size
  · rw [if_pos inside, if_pos inside]
    rfl
  · rw [if_neg inside, if_neg inside]
    cases locate sizes (index - size) with
    | none => rfl
    | some found => rfl

end Node

end PixelTree
