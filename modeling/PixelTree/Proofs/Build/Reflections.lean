import PixelTree.Proofs.Build.Offsets
import PixelTree.Proofs.Node.Redirecting
import PixelTree.Proofs.Remap.Onward

/-! Reflections and rotations of a strip. A fixed offset of either sign goes around the strip in the
integers, two offsets add up, two reflections cancel, and an offset behind a reflection is the
opposite offset in front of it, whatever is written, read and flushed.
-/

namespace PixelTree

namespace Remap

variable {count : Nat}

/-- The table of an offset of either sign. -/
def Table.ofOffset (count : Nat) (offset : Int) : Table :=
  Table.initial (.shift (offset % (max count 1 : Nat)).toNat) count

@[simp] theorem Table.size_ofOffset (count : Nat) (offset : Int)
    : (Table.ofOffset count offset).size = count := by
  simp [ofOffset, initial, size, shifted]

/-- The table of a strip leads each index to the one at a distance, and stays. -/
structure Table.Turns (table : Table) (count : Nat) (distance : Int) : Prop where
  still : table.rule.moves = false
  size_eq : table.size = count
  index?_eq
    : ∀ index < count,
        table.index? index = some (((index : Int) + distance) % (count : Int)).toNat

/-- In a strip that fits in memory the table of an offset leads exactly as far around. -/
theorem Table.turns_ofOffset (small : count < Numeral.signedLimit) (offset : Int)
    : (Table.ofOffset count offset).Turns count offset where
  still := rfl
  size_eq := Table.size_ofOffset count offset
  index?_eq := by
    intro index inside
    have limit : Numeral.signedLimit + Numeral.signedLimit = Numeral.wordLimit := rfl
    have strip : max count 1 = count := by omega
    have rest : ((offset % (count : Int)).toNat : Int) = offset % count :=
      Int.toNat_of_nonneg (Int.emod_nonneg _ (by omega))
    have below : (offset % (count : Int)).toNat < count := by
      have most := Int.emod_lt_of_pos offset (b := (count : Int)) (by omega)
      omega
    have placed : (Table.ofOffset count offset).AtOffset count (offset % (count : Int)).toNat := by
      rw [ofOffset, strip]
      exact .made rfl
    have around : (index + (offset % (count : Int)).toNat) % count
        = ((index + offset) % (count : Int)).toNat := by
      rw [← Int.toNat_natCast ((index + (offset % (count : Int)).toNat) % count),
        Int.natCast_mod, Int.natCast_add, rest, Int.add_emod_emod]
    rw [placed.index?_eq inside, (advanced_exact_iff (by omega)).mpr (.inl (by omega)) index inside,
      around]

end Remap

open Descriptor (Stage)
open Remap (Table onward)

namespace Node

/-- The node with an offset of either sign. -/
def moved (offset : Int) (inner : Node) : Node :=
  .remap (Table.ofOffset inner.count offset) inner

@[simp] theorem count_moved (offset : Int) (inner : Node)
    : (inner.moved offset).count = inner.count :=
  Table.size_ofOffset inner.count offset

/-- A table that turns redirects to the index at its distance. -/
theorem redirects_turning {table : Table} {count : Nat} {distance : Int}
    (turns : table.Turns count distance)
    : Redirects (remap table) (within count (onward count distance)) count := by
  have redirects := redirects_remap turns.size_eq turns.still
  have lead : table.index? = within count (onward count distance) := by
    funext index
    by_cases inside : index < count
    · rw [turns.index?_eq index inside, within, if_pos inside, onward]
    · rw [within, if_neg inside, Table.index?, Array.getElem?_eq_none]
      exact turns.size_eq.le.trans (Nat.not_lt.mp inside)
  rwa [lead] at redirects

theorem redirects_moved {count : Nat} (small : count < Numeral.signedLimit) (offset : Int)
    : Redirects (remap (Table.ofOffset count offset)) (within count (onward count offset))
        count :=
  redirects_turning (Table.turns_ofOffset small offset)

end Node

-----------------------------------------------------------------------------------------
-- Stages of reflections and offsets
-----------------------------------------------------------------------------------------

namespace Catalog

open Node

/-- The stage of an offset of either sign. -/
def movingStage (offset : Int64) : Stage :=
  ⟨"shift", [Numeral.decimalInt offset.toInt]⟩

example : (movingStage (-7)).display = "shift:-7" := by
  decide

def flippingStage : Stage :=
  ⟨"flip", []⟩

theorem applyFilter_movingStage (offset : Int64) (inner : Node) (supply : SeedSupply)
    : standard.applyFilter (movingStage offset) inner supply
      = .ok (inner.moved offset.toInt, supply) := by
  have entered : (standard.find? "shift").map Entry.maker = some (.filter Standard.shift) := by
    rfl
  have least : -(Numeral.signedLimit : Int) ≤ offset.toInt := offset.le_toInt
  have most : offset.toInt < (Numeral.signedLimit : Int) := offset.toInt_lt
  have read := (Descriptor.plain_decimalInt offset.toInt).read_eq
    (Numeral.signed?_decimalInt least most) "offset"
  exact (applyFilter_eq_ok entered).mpr (Standard.shift_of_read read inner supply)

theorem applyFilter_flippingStage (inner : Node) (supply : SeedSupply)
    : standard.applyFilter flippingStage inner supply = .ok (.flip inner, supply) := by
  have entered : (standard.find? "flip").map Entry.maker = some (.filter Standard.flip) := by
    rfl
  refine (applyFilter_eq_ok entered).mpr (bind_eq_ok.mpr ⟨(), supply, ?_, rfl⟩)
  exact Standard.lift_requireCount (by simp) supply

theorem applyFilters_moved {offset : Int64} {filters : List Stage} {inner core : Node}
    {supply : SeedSupply}
    (applied : standard.applyFilters filters core supply = .ok (inner, supply))
    : standard.applyFilters (movingStage offset :: filters) core supply
      = .ok (inner.moved offset.toInt, supply) :=
  applyFilters_cons_eq_ok.mpr ⟨inner, supply, applied, applyFilter_movingStage offset inner supply⟩

theorem applyFilters_flip {filters : List Stage} {inner core : Node} {supply : SeedSupply}
    (applied : standard.applyFilters filters core supply = .ok (inner, supply))
    : standard.applyFilters (flippingStage :: filters) core supply = .ok (.flip inner, supply) :=
  applyFilters_cons_eq_ok.mpr ⟨inner, supply, applied, applyFilter_flippingStage inner supply⟩

/-- Two rows of filters around a node are built, without a seed, to trees that behave alike. -/
def Interchangeable (filters others : List Stage) (inner : Node) : Prop :=
  ∀ supply, ∃ node other,
    standard.applyFilters filters inner supply = .ok (node, supply)
    ∧ standard.applyFilters others inner supply = .ok (other, supply)
    ∧ BehavesAs node other

/-- The laws of reflections and rotations around a node. -/
structure TurnsAndReflects (inner : Node) : Prop where
  /-- An offset shows each index from the one at its distance and writes it there. -/
  shift
    : ∀ (offset : Int64) supply, ∃ node,
        standard.applyFilters [movingStage offset] inner supply = .ok (node, supply)
        ∧ node.count = inner.count
        ∧ ∀ index < inner.count, ∀ place : Nat,
          (place : Int) = (index + offset.toInt) % (inner.count : Int) →
          node.get index = inner.get place
          ∧ ∀ color,
            standard.applyFilters [movingStage offset] (inner.set place color) supply
            = .ok (node.set index color, supply)
  /-- Two offsets are one remapping, which exists. -/
  shift_shift
    : ∀ first second : Int64,
        (∃ table : Table, table.Turns inner.count (first.toInt + second.toInt))
        ∧ ∀ table : Table, table.Turns inner.count (first.toInt + second.toInt) →
          ∀ supply, ∃ node,
            standard.applyFilters [movingStage first, movingStage second] inner supply
            = .ok (node, supply)
            ∧ BehavesAs node (.remap table inner)
  flip_flip : Interchangeable [flippingStage, flippingStage] [] inner
  /-- An offset behind a reflection is in front of it one that undoes it, up to whole turns. -/
  flip_shift
    : ∀ offset back : Int64, (inner.count : Int) ∣ offset.toInt + back.toInt →
        Interchangeable [flippingStage, movingStage offset] [movingStage back, flippingStage] inner

/-- Every node whose pixels a signed word counts obeys the laws, because each row of filters only
redirects, and both rows of each law lead to the same indices.
-/
theorem turnsAndReflects {inner : Node} (positive : 1 ≤ inner.count)
    (small : inner.count < Numeral.signedLimit)
    : TurnsAndReflects inner where
  shift := by
    intro offset supply
    have redirects := redirects_moved small offset.toInt
    refine ⟨inner.moved offset.toInt, applyFilters_moved rfl, redirects.count_eq rfl, ?_⟩
    intro index inside place around
    obtain rfl : place = onward inner.count offset.toInt index := by
      rw [onward, ← around, Int.toNat_natCast]
    have lead : within inner.count (onward inner.count offset.toInt) index
        = some (onward inner.count offset.toInt index) :=
      if_pos inside
    constructor
    · rw [moved, redirects.get_eq rfl, lead]
      rfl
    · intro color
      rw [moved, redirects.set_eq rfl, lead]
      refine (applyFilters_moved rfl).trans ?_
      rw [moved, count_set]
      rfl
  shift_shift := by
    intro first second
    refine ⟨⟨_, Table.turns_ofOffset small _⟩, ?_⟩
    intro table turns supply
    refine ⟨_, applyFilters_moved (applyFilters_moved rfl), ?_⟩
    have both := (redirects_moved small first.toInt).comp (redirects_moved small second.toInt)
    rw [moved, count_moved]
    refine both.behavesAs (redirects_turning turns) ?_ rfl
    intro index
    rw [within_bind (fun index _ => Remap.onward_lt positive _ index)]
    exact within_congr (fun index _ => (Remap.onward_onward positive _ _ index).symm) index
  flip_flip := by
    intro supply
    refine ⟨_, inner, applyFilters_flip (applyFilters_flip rfl), rfl, ?_⟩
    have both := (redirects_flip inner.count).comp (redirects_flip inner.count)
    refine both.behavesAs (redirects_id inner.count) ?_ rfl
    intro index
    rw [opposite?_eq_within, within_bind (fun index _ => by omega)]
    exact within_congr (fun index inside => by rw [id]; omega) index
  flip_shift := by
    intro offset back turns supply
    refine ⟨_, _, applyFilters_flip (applyFilters_moved rfl),
      applyFilters_moved (applyFilters_flip rfl), ?_⟩
    have front := (redirects_flip inner.count).comp (redirects_moved small offset.toInt)
    have behind := (redirects_moved small back.toInt).comp (redirects_flip inner.count)
    refine front.behavesAs behind ?_ rfl
    intro index
    rw [opposite?_eq_within, within_bind (fun index _ => Remap.onward_lt positive _ index),
      within_bind (fun index _ => by omega)]
    exact within_congr (fun index inside => (Remap.onward_opposite inside turns).symm) index

/-- Two strips that are five pixels together: seven back and two on are a whole turn. -/
theorem turnsAndReflects_five
    : let strips := Node.ofMembers defaultSpacing [Node.ofCount 3, Node.ofCount 2]
      1 ≤ strips.count ∧ strips.count < Numeral.signedLimit
      ∧ (strips.count : Int) ∣ (-7 : Int64).toInt + (2 : Int64).toInt
      ∧ TurnsAndReflects strips
      ∧ Interchangeable [flippingStage, movingStage (-7)] [movingStage 2, flippingStage]
          strips := by
  intro strips
  have laws : TurnsAndReflects strips := turnsAndReflects (by decide) (by decide)
  have turns : (strips.count : Int) ∣ (-7 : Int64).toInt + (2 : Int64).toInt := by
    decide
  exact ⟨by decide, by decide, turns, laws, laws.flip_shift (-7) 2 turns⟩

end Catalog
end PixelTree
