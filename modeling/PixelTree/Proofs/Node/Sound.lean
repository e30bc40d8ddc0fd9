import PixelTree.Proofs.Node.Cells
import PixelTree.Proofs.Remap.Permutation

/-! Sound trees: the counts of lists are those of the members and the tables of filters renumber
the inner node. Every visible index of such a tree has a place of its own.
-/

namespace PixelTree

namespace Node

mutual
/-- Lists have counted their members, tables renumber what is inside them, and margins are
words.
-/
def Sound : Node → Prop
  | .null _ | .ck _ | .tap _ => True
  | .list _ counts members => counts = members.map count ∧ SoundAll members
  | .flip inner => inner.Sound
  | .remap table inner =>
    table.Renumbers inner.count ∧ inner.count ≤ Numeral.signedLimit ∧ inner.Sound
  | .solid _ inner => inner.Sound
  | .gradient _ _ inner => inner.Sound
  | .sparkle _ inner => inner.Sound
  | .nav margin inner => margin < Numeral.wordLimit ∧ inner.Sound

/-- Every one of several trees is sound. -/
def SoundAll : List Node → Prop
  | [] => True
  | node :: rest => node.Sound ∧ SoundAll rest
end

theorem soundAll_iff {members : List Node}
    : SoundAll members ↔ ∀ member ∈ members, member.Sound := by
  induction members with
  | nil => simp [SoundAll]
  | cons node rest ih => simp [SoundAll, ih]

mutual
/-- Whether a tree has no margins anywhere. -/
def NavFree : Node → Prop
  | .null _ | .ck _ | .tap _ => True
  | .list _ _ members => NavFreeAll members
  | .flip inner => inner.NavFree
  | .remap _ inner => inner.NavFree
  | .solid _ inner => inner.NavFree
  | .gradient _ _ inner => inner.NavFree
  | .sparkle _ inner => inner.NavFree
  | .nav _ _ => False

/-- Whether several trees have no margins anywhere. -/
def NavFreeAll : List Node → Prop
  | [] => True
  | node :: rest => node.NavFree ∧ NavFreeAll rest
end

end Node

-----------------------------------------------------------------------------------------
-- Filters that renumber
-----------------------------------------------------------------------------------------

/-- A filter leads each of its visible indices to an index of the inner node, and no two of them
to the same one.
-/
structure Leads (lead : Nat → Option Nat) (outer inner : Nat) : Prop where
  isSome_iff : ∀ index, (lead index).isSome ↔ index < outer
  lt : ∀ {index position}, lead index = some position → position < inner
  inj
    : ∀ {index other position},
        lead index = some position → lead other = some position → index = other

namespace Node

theorem opposite?_eq_some {count index position : Nat}
    : opposite? count index = some position ↔ index < count ∧ index + position + 1 = count := by
  unfold opposite?
  split
  · next inside =>
      rw [Option.some.injEq]
      omega
  · next outside => simp [outside]

/-- The opposites of all indices. -/
theorem leads_opposite? (count : Nat) : Leads (opposite? count) count count where
  isSome_iff := by
    intro index
    unfold opposite?
    split <;> simp_all
  lt := by
    intro index position found
    have sum := (opposite?_eq_some.mp found).2
    omega
  inj := by
    intro index other position found found'
    have sum := (opposite?_eq_some.mp found).2
    have sum' := (opposite?_eq_some.mp found').2
    omega

/-- The inner index of an index between margins. -/
def inward? (total margin index : Nat) : Option Nat :=
  if index < visibleCount total margin then some (index + margin) else none

/-- The indices between margins, where the double of a margin may be held at the greatest word. -/
theorem leads_inward? {total margin : Nat} (word : margin < Numeral.wordLimit)
    : Leads (inward? total margin) (visibleCount total margin) total where
  isSome_iff := by
    intro index
    unfold inward?
    split <;> simp_all
  lt := by
    intro index position found
    unfold inward? at found
    split at found
    · next visible =>
        obtain rfl := Option.some.inj found
        unfold visibleCount at visible
        omega
    · cases found
  inj := by
    intro index other position found found'
    unfold inward? at found found'
    split at found
    · split at found'
      · rw [Option.some.injEq] at found found'
        omega
      · cases found'
    · cases found

theorem place_nav (margin : Nat) (inner : Node) (index : Nat)
    : (nav margin inner).place index = (inward? inner.count margin index).bind inner.place := by
  simp only [place, inward?]
  split <;> rfl

end Node

namespace Remap.Table.Renumbers

variable {table : Table} {count : Nat}

/-- A table that renumbers holds no index twice and no other index. -/
theorem leads (renumbers : table.Renumbers count) : Leads table.index? count count where
  isSome_iff := by
    intro index
    rw [← renumbers.size_eq, index?, Option.isSome_iff_ne_none, ne_eq,
      Array.getElem?_eq_none_iff, size, Nat.not_le]
  lt := by
    intro index position found
    have member : position ∈ table.indices.toList :=
      Array.mem_toList_iff.mpr (Array.mem_of_getElem? found)
    exact List.mem_range.mp (renumbers.mem_iff.mp member)
  inj := by
    intro index other position found found'
    have once : table.indices.toList.Nodup := renumbers.nodup_iff.mpr List.nodup_range
    have inside := (Array.getElem?_eq_some_iff.mp found).1
    refine (List.getElem?_inj (by simpa using inside) once).mp ?_
    rw [Array.getElem?_toList, Array.getElem?_toList]
    exact found.trans found'.symm

/-- A table that renumbers leads some visible index to each index of the inner node. -/
theorem exists_index? (renumbers : table.Renumbers count) {position : Nat}
    (inside : position < count)
    : ∃ index, table.index? index = some position := by
  have member := renumbers.mem_iff.mpr (List.mem_range.mpr inside)
  exact Array.mem_iff_getElem?.mp (Array.mem_toList_iff.mp member)

end Remap.Table.Renumbers

namespace Leads

variable {lead : Nat → Option Nat} {outer : Nat} {inner : Node}

/-- If the indices of the inner node have places, so have those that lead to them. -/
theorem isSome_place (leads : Leads lead outer inner.count)
    (places : ∀ position, (inner.place position).isSome ↔ position < inner.count) (index : Nat)
    : ((lead index).bind inner.place).isSome ↔ index < outer := by
  rw [← leads.isSome_iff index]
  cases found : lead index with
  | none => rfl
  | some position =>
      rw [Option.bind_some, places position]
      exact iff_of_true (leads.lt found) rfl

/-- If the indices of the inner node have different places, so have those that lead to them. -/
theorem place_inj (leads : Leads lead outer inner.count)
    (places : ∀ {position position' cell},
      inner.place position = some cell → inner.place position' = some cell → position = position')
    {index other : Nat} {cell : Cell} (placed : (lead index).bind inner.place = some cell)
    (placed' : (lead other).bind inner.place = some cell)
    : index = other := by
  obtain ⟨position, found, placed⟩ := Option.bind_eq_some_iff.mp placed
  obtain ⟨position', found', placed'⟩ := Option.bind_eq_some_iff.mp placed'
  obtain rfl := places placed placed'
  exact leads.inj found found'

end Leads

namespace Node

-----------------------------------------------------------------------------------------
-- Members
-----------------------------------------------------------------------------------------

/-- The cell of an index of a list that has counted its members. -/
def placeIn (members : List Node) (index : Nat) : Option Cell :=
  (locate (members.map count) index).bind (fun found => placeMember members found.1 found.2)

/-- An index of a list is one of its first member, or else one of the other members behind it. -/
theorem placeIn_cons (node : Node) (rest : List Node) (index : Nat)
    : placeIn (node :: rest) index
      = if index < node.count then node.place index
        else (placeIn rest (index - node.count)).map (Cell.behind node.strips.length) := by
  rw [placeIn, List.map_cons, locate]
  split
  · rfl
  · rw [placeIn]
    cases locate (rest.map count) (index - node.count) with
    | none => rfl
    | some found => rfl

/-- Behind the first member stand its leaves. -/
theorem placeIn_cons_eq_some {node : Node} {rest : List Node} {index : Nat} {cell : Cell}
    : placeIn (node :: rest) index = some cell
      ↔ (index < node.count ∧ node.place index = some cell)
        ∨ (node.count ≤ index
          ∧ ∃ later, placeIn rest (index - node.count) = some later
            ∧ later.behind node.strips.length = cell) := by
  rw [placeIn_cons]
  split
  · next inside => simp [inside]
  · next outside => simp [Nat.not_lt.mp outside, outside]

-----------------------------------------------------------------------------------------
-- Every visible index has a place
-----------------------------------------------------------------------------------------

mutual
/-- Exactly the visible indices of a sound tree have places, by induction over the tree. -/
theorem isSome_place (node : Node) (sound : node.Sound) (index : Nat)
    : (node.place index).isSome ↔ index < node.count := by
  cases node with
  | null device => exact Strip.isSome_place device.strip index
  | ck output => exact Strip.isSome_place output.strip index
  | tap device => exact Strip.isSome_place device.strip index
  | list spacing counts members =>
      obtain ⟨rfl, sound⟩ := sound
      exact isSome_placeIn members sound index
  | flip inner => exact (leads_opposite? _).isSome_place (isSome_place inner sound) index
  | remap table inner =>
      obtain ⟨renumbers, _, sound⟩ := sound
      rw [count, renumbers.size_eq]
      exact renumbers.leads.isSome_place (isSome_place inner sound) index
  | solid paint inner => exact isSome_place inner sound index
  | gradient start goal inner => exact isSome_place inner sound index
  | sparkle state inner => exact isSome_place inner sound index
  | nav margin inner =>
      obtain ⟨word, sound⟩ := sound
      rw [place_nav]
      exact (leads_inward? word).isSome_place (isSome_place inner sound) index

theorem isSome_placeIn (members : List Node) (sound : SoundAll members) (index : Nat)
    : (placeIn members index).isSome ↔ index < (members.map count).foldr (· + ·) 0 := by
  cases members with
  | nil => simp [placeIn, locate]
  | cons node rest =>
      obtain ⟨first, others⟩ := sound
      rw [placeIn_cons, List.map_cons, List.foldr_cons]
      split
      · next inside =>
          rw [isSome_place node first]
          omega
      · next outside =>
          rw [Option.isSome_map, isSome_placeIn rest others]
          omega
end

-----------------------------------------------------------------------------------------
-- No two visible indices have the same place
-----------------------------------------------------------------------------------------

mutual
/-- Different indices of a sound tree have different places, by induction over the tree. -/
theorem place_inj (node : Node) (sound : node.Sound) {index other : Nat} {cell : Cell}
    (placed : node.place index = some cell) (placed' : node.place other = some cell)
    : index = other := by
  cases node with
  | null device => exact Strip.place_inj placed placed'
  | ck output => exact Strip.place_inj placed placed'
  | tap device => exact Strip.place_inj placed placed'
  | list spacing counts members =>
      obtain ⟨rfl, sound⟩ := sound
      exact placeIn_inj members sound placed placed'
  | flip inner => exact (leads_opposite? _).place_inj (place_inj inner sound) placed placed'
  | remap table inner =>
      obtain ⟨renumbers, _, sound⟩ := sound
      exact renumbers.leads.place_inj (place_inj inner sound) placed placed'
  | solid paint inner => exact place_inj inner sound placed placed'
  | gradient start goal inner => exact place_inj inner sound placed placed'
  | sparkle state inner => exact place_inj inner sound placed placed'
  | nav margin inner =>
      obtain ⟨word, sound⟩ := sound
      rw [place_nav] at placed placed'
      exact (leads_inward? word).place_inj (place_inj inner sound) placed placed'

theorem placeIn_inj (members : List Node) (sound : SoundAll members) {index other : Nat}
    {cell : Cell} (placed : placeIn members index = some cell)
    (placed' : placeIn members other = some cell)
    : index = other := by
  cases members with
  | nil => cases placed
  | cons node rest =>
      obtain ⟨first, others⟩ := sound
      -- The leaves of the first member stand before those of the others.
      have apart : ∀ {index} {later : Cell},
          node.place index ≠ some (later.behind node.strips.length) := by
        intro index later inside
        have before := Cell.leaf_lt_of_color? (cell?_place node inside)
        simp only [Cell.behind] at before
        omega
      rcases placeIn_cons_eq_some.mp placed with ⟨_, here⟩ | ⟨reached, later, there, rfl⟩
      · rcases placeIn_cons_eq_some.mp placed' with ⟨_, here'⟩ | ⟨_, later, _, rfl⟩
        · exact place_inj node first here here'
        · exact absurd here apart
      · rcases placeIn_cons_eq_some.mp placed' with ⟨_, here'⟩ | ⟨reached', later', there', same⟩
        · exact absurd here' apart
        · obtain rfl := Cell.behind_inj.mp same
          have rests := placeIn_inj rest others there there'
          omega
end

-----------------------------------------------------------------------------------------
-- Without margins every cell is visible
-----------------------------------------------------------------------------------------

mutual
/-- In a sound tree without margins every cell is the place of an index, by induction over the
tree.
-/
theorem exists_place (node : Node) (sound : node.Sound) (free : node.NavFree) {cell : Cell}
    (colored : (node.cell? cell).isSome)
    : ∃ index, node.place index = some cell := by
  cases node with
  | null device => exact Strip.exists_place colored
  | ck output => exact Strip.exists_place colored
  | tap device => exact Strip.exists_place colored
  | list spacing counts members =>
      obtain ⟨rfl, sound⟩ := sound
      exact exists_placeIn members sound free colored
  | flip inner =>
      obtain ⟨position, placed⟩ := exists_place inner sound free colored
      have inside := (isSome_place inner sound position).mp (by rw [placed]; rfl)
      have found : opposite? inner.count (inner.count - 1 - position) = some position :=
        opposite?_eq_some.mpr (by omega)
      exact ⟨inner.count - 1 - position, Option.bind_eq_some_iff.mpr ⟨position, found, placed⟩⟩
  | remap table inner =>
      obtain ⟨renumbers, _, sound⟩ := sound
      obtain ⟨position, placed⟩ := exists_place inner sound free colored
      have inside := (isSome_place inner sound position).mp (by rw [placed]; rfl)
      obtain ⟨index, found⟩ := renumbers.exists_index? inside
      exact ⟨index, Option.bind_eq_some_iff.mpr ⟨position, found, placed⟩⟩
  | solid paint inner => exact exists_place inner sound free colored
  | gradient start goal inner => exact exists_place inner sound free colored
  | sparkle state inner => exact exists_place inner sound free colored
  | nav margin inner => exact absurd free id

theorem exists_placeIn (members : List Node) (sound : SoundAll members)
    (free : NavFreeAll members) {cell : Cell}
    (colored : (cell.color? (stripsOf members)).isSome)
    : ∃ index, placeIn members index = some cell := by
  cases members with
  | nil => cases colored
  | cons node rest =>
      obtain ⟨first, others⟩ := sound
      obtain ⟨firstFree, othersFree⟩ := free
      rw [stripsOf] at colored
      rcases cell.lt_or_exists_behind node.strips.length with inside | ⟨later, rfl⟩
      · rw [Cell.color?_append_left _ inside] at colored
        obtain ⟨index, placed⟩ := exists_place node first firstFree colored
        have below := (isSome_place node first index).mp (by rw [placed]; rfl)
        exact ⟨index, placeIn_cons_eq_some.mpr (Or.inl ⟨below, placed⟩)⟩
      · rw [Cell.color?_append_behind] at colored
        obtain ⟨index, placed⟩ := exists_placeIn rest others othersFree colored
        refine ⟨node.count + index, placeIn_cons_eq_some.mpr (Or.inr ⟨Nat.le_add_right _ _, ?_⟩)⟩
        rw [Nat.add_sub_cancel_left]
        exact ⟨later, placed, rfl⟩
end

-----------------------------------------------------------------------------------------
-- Colors do not matter for soundness
-----------------------------------------------------------------------------------------

mutual
/-- The dark tree is sound exactly if the tree is. -/
theorem sound_dark (node : Node) : node.dark.Sound ↔ node.Sound := by
  cases node with
  | null device => rfl
  | ck output => rfl
  | tap device => rfl
  | list spacing counts members =>
      simp only [dark, Sound, soundAll_darkAll members, counts_darkAll]
  | flip inner => exact sound_dark inner
  | remap table inner => simp only [dark, Sound, count_dark, sound_dark inner]
  | solid paint inner => exact sound_dark inner
  | gradient start goal inner => exact sound_dark inner
  | sparkle state inner => exact sound_dark inner
  | nav margin inner => simp only [dark, Sound, sound_dark inner]

theorem soundAll_darkAll (members : List Node) : SoundAll (darkAll members) ↔ SoundAll members := by
  cases members with
  | nil => rfl
  | cons node rest => simp only [darkAll, SoundAll, sound_dark node, soundAll_darkAll rest]
end

theorem Sound.of_dark {node other : Node} (sound : node.Sound) (frame : other.dark = node.dark)
    : other.Sound := by
  rw [← sound_dark, frame, sound_dark]
  exact sound

end Node

end PixelTree
