import PixelTree.Proofs.Node.Margins

/-! Looking an index up along a list undoes the concatenation of its members: it finds the member
that a pixel belongs to and the pixel's index there, behind members without pixels too.
-/

namespace PixelTree.Node

variable {counts : List Nat} {count index member offset : Nat}

-----------------------------------------------------------------------------------------
-- Pixels of a concatenation
-----------------------------------------------------------------------------------------

/-- In a row of members with some counts, an index stands for a pixel of one of them: in front of it
are all pixels of the members in front, and as many of its own member as the offset says.
-/
def StandsFor (counts : List Nat) (index member offset : Nat) : Prop :=
  ∃ count,
    counts[member]? = some count
    ∧ offset < count
    ∧ index = (counts.take member).sum + offset

/-- An index stands for a pixel of the first member, or for one in the row of the others. -/
theorem standsFor_cons
    : StandsFor (count :: counts) index member offset
      ↔ (member = 0 ∧ index < count ∧ offset = index)
        ∨ ∃ later,
            member = later + 1 ∧ count ≤ index ∧ StandsFor counts (index - count) later offset := by
  cases member with
  | zero =>
      simp only [StandsFor, List.getElem?_cons_zero, Option.some.injEq, List.take_zero,
        List.sum_nil, Nat.zero_add]
      constructor
      · rintro ⟨_, rfl, inside, rfl⟩
        exact Or.inl ⟨trivial, inside, rfl⟩
      · rintro (⟨_, inside, rfl⟩ | ⟨_, impossible, _⟩)
        · exact ⟨count, rfl, inside, rfl⟩
        · cases impossible
  | succ later =>
      simp only [StandsFor, List.getElem?_cons_succ, List.take_succ_cons, List.sum_cons]
      constructor
      · rintro ⟨size, found, inside, rfl⟩
        exact Or.inr ⟨later, rfl, by omega, size, found, inside, by omega⟩
      · rintro (⟨impossible, _⟩ | ⟨_, same, behind, size, found, inside, whole⟩)
        · cases impossible
        · obtain rfl := Nat.succ.inj same
          exact ⟨size, found, inside, by omega⟩

/-- An index is looked up as what it stands for, by induction over the counts. -/
theorem locate_eq_some_iff
    : locate counts index = some (member, offset) ↔ StandsFor counts index member offset := by
  induction counts generalizing index member with
  | nil => simp [locate, StandsFor]
  | cons count counts ih =>
      rw [standsFor_cons, locate]
      split
      · next inside =>
          have outside : ¬ count ≤ index := Nat.not_le.mpr inside
          simp [inside, outside, eq_comm]
      · next outside =>
          have behind : count ≤ index := Nat.not_lt.mp outside
          rw [Option.map_eq_some_iff]
          constructor
          · rintro ⟨⟨later, _⟩, found, ⟨⟩⟩
            exact Or.inr ⟨later, rfl, behind, ih.mp found⟩
          · rintro (⟨_, inside, _⟩ | ⟨later, rfl, _, stands⟩)
            · exact absurd inside outside
            · exact ⟨(later, offset), ih.mpr stands, rfl⟩

-----------------------------------------------------------------------------------------
-- The loop on a machine
-----------------------------------------------------------------------------------------

namespace Machine

open Remap (Stop)
open Remap.Machine (bind_ok)

/-- Goes through the counts of members from one on, and takes each off the index. -/
def locateFrom (member : Nat) : List Nat → Nat → Except Stop (Option (Nat × Nat))
  | [], _ => return none
  | count :: counts, index =>
    if index < count then return some (member, index)
    else do locateFrom (member + 1) counts (← difference index count)

/-- A count is taken off an index that it does not exceed, so no difference is too small. -/
theorem locateFrom_eq (member : Nat) (counts : List Nat) (index : Nat)
    : locateFrom member counts index
      = .ok ((locate counts index).map (fun found => (member + found.1, found.2))) := by
  induction counts generalizing member index with
  | nil => rfl
  | cons count counts ih =>
      rw [locateFrom, locate]
      split
      · rfl
      · next outside =>
          rw [difference_eq (Nat.not_lt.mp outside), bind_ok, ih, Option.map_map]
          congr 2
          funext found
          simp only [Function.comp_apply]
          congr 1
          omega

end Machine

-----------------------------------------------------------------------------------------
-- Looking up
-----------------------------------------------------------------------------------------

/-- Looking up is the inverse of concatenation. It finds a pixel exactly if the index stands for it,
and none exactly if the index is past all members. No difference on its way is too small.
-/
theorem locate_inverts_concatenation (counts : List Nat) (index : Nat)
    : Machine.locateFrom 0 counts index = .ok (locate counts index)
      ∧ (∀ member offset,
          locate counts index = some (member, offset) ↔ StandsFor counts index member offset)
      ∧ (locate counts index = none ↔ counts.sum ≤ index) := by
  refine ⟨?_, fun _ _ => locate_eq_some_iff, locate_eq_none_iff⟩
  simp only [Machine.locateFrom_eq, Nat.zero_add, Prod.mk.eta, Option.map_id']

end PixelTree.Node
