import PixelTree.Proofs.Build.Composition
import PixelTree.Proofs.Build.Tables

/-! Fixed offsets of any size. The sum of an index and an offset is a word, so a strip whose size
does not divide the number of words is left in disorder by an offset that makes a sum too large.
-/

namespace PixelTree

namespace Remap

variable {count offset : Nat}

-----------------------------------------------------------------------------------------
-- Sums that wrap
-----------------------------------------------------------------------------------------

/-- Sums that are words go around the strip exactly, and so do all sums if the strip divides the
words. In other strips the first index whose sum wraps goes to the start.
-/
theorem advanced_exact_iff (word : offset < Numeral.wordLimit)
    : (∀ index < count, advanced count offset index = (index + offset) % count)
      ↔ offset + count ≤ Numeral.wordLimit ∨ count ∣ Numeral.wordLimit := by
  constructor
  · intro around
    by_cases fits : offset + count ≤ Numeral.wordLimit
    · exact .inl fits
    · have first := around (Numeral.wordLimit - offset) (by omega)
      rw [advanced, Nat.sub_add_cancel word.le, Nat.mod_self, Nat.zero_mod] at first
      exact .inr (Nat.dvd_of_mod_eq_zero first.symm)
  · rintro (fits | divides) index inside
    · have sum : (index + offset) % Numeral.wordLimit = index + offset :=
        Nat.mod_eq_of_lt (by omega)
      rw [advanced, sum]
    · exact Nat.mod_mod_of_dvd _ divides

/-- If sums wrap in a strip that does not divide the words, two indices lead to the same place: the
first that wraps and the one whose sum is the last multiple of the strip that is a word, or if there
is none, the start of the strip and the one that wraps to the same place.
-/
theorem exists_collision (word : offset < Numeral.wordLimit)
    (wraps : Numeral.wordLimit < offset + count) (rest : ¬ count ∣ Numeral.wordLimit)
    : ∃ index other,
        index < other ∧ other < count
        ∧ advanced count offset index = advanced count offset other := by
  have parts := Nat.mod_add_div Numeral.wordLimit count
  have below := Nat.mod_lt Numeral.wordLimit (show 0 < count by omega)
  have positive : 0 < Numeral.wordLimit % count :=
    Nat.pos_of_ne_zero (fun none => rest (Nat.dvd_of_mod_eq_zero none))
  have few := Nat.mod_le Numeral.wordLimit count
  generalize Numeral.wordLimit % count = remainder at parts below positive few
  rcases Nat.lt_or_ge remainder (Numeral.wordLimit - offset) with early | late
  · refine ⟨Numeral.wordLimit - offset - remainder, Numeral.wordLimit - offset, by omega, by omega,
      ?_⟩
    have multiple : Numeral.wordLimit - offset - remainder + offset
        = count * (Numeral.wordLimit / count) := by
      omega
    have sum : count * (Numeral.wordLimit / count) < Numeral.wordLimit := by omega
    rw [advanced, advanced, multiple, Nat.mod_eq_of_lt sum, Nat.mul_mod_right,
      Nat.sub_add_cancel word.le, Nat.mod_self, Nat.zero_mod]
  · refine ⟨0, remainder, positive, below, ?_⟩
    have start : 0 + offset
        = remainder - (Numeral.wordLimit - offset) + count * (Numeral.wordLimit / count) := by
      omega
    have wrapped : remainder + offset
        = remainder - (Numeral.wordLimit - offset) + Numeral.wordLimit := by
      omega
    have small : remainder - (Numeral.wordLimit - offset) < Numeral.wordLimit := by omega
    have sum : (0 + offset) % Numeral.wordLimit = 0 + offset := Nat.mod_eq_of_lt (by omega)
    rw [advanced, advanced, sum, start, Nat.add_mul_mod_self_left, wrapped, Nat.add_mod_right,
      Nat.mod_eq_of_lt small]

/-- Going around a strip exactly leads to each place once. -/
theorem renumbers_of_exact {table : Table}
    (indices
      : table.indices.toList = (List.range count).map (fun index => (index + offset) % count))
    : table.Renumbers count := by
  rw [Table.Renumbers, indices]
  refine perm_map_range (fun index inside => Nat.mod_lt _ (Nat.zero_lt_of_lt inside)) ?_
  intro a inA b inB same
  have rests : a ≡ b [MOD count] := Nat.ModEq.add_right_cancel' offset same
  exact rests.eq_of_lt_of_lt inA inB

-----------------------------------------------------------------------------------------
-- Tables of a fixed offset
-----------------------------------------------------------------------------------------

theorem toList_shifted (count offset : Nat)
    : (shifted count offset).toList = (List.range count).map (advanced count offset) := by
  rw [shifted, Array.toList_map, Array.toList_range]

/-- The table of a strip and a fixed offset, which is made with it or moved to it afterwards. -/
inductive Table.AtOffset (count offset : Nat) : Table → Prop where
  | made {table : Table} (made : Table.make (.shift offset) count = .ok table)
    : AtOffset count offset table
  | moved {table : Table} {earlier : Nat} (rule : table.rule = .shift earlier)
    (size : table.size = count)
    : AtOffset count offset (table.withOffset offset)

namespace Table.AtOffset

variable {table : Table}

/-- Both ways lead to the same table. -/
theorem eq (placed : table.AtOffset count offset)
    : table = ⟨.shift offset, shifted count offset⟩ := by
  cases placed with
  | made made => exact (Except.ok.inj made).symm
  | moved rule size => simp only [withOffset, rule, size]

theorem index?_eq (placed : table.AtOffset count offset) {index : Nat} (inside : index < count)
    : table.index? index = some (advanced count offset index) := by
  rw [placed.eq, index?, shifted]
  simp [inside]

/-- The places of a table are exact under the same condition as the sums. -/
theorem exact_iff (placed : table.AtOffset count offset) (word : offset < Numeral.wordLimit)
    : (∀ index < count, table.index? index = some ((index + offset) % count))
      ↔ offset + count ≤ Numeral.wordLimit ∨ count ∣ Numeral.wordLimit := by
  rw [← advanced_exact_iff word]
  refine forall₂_congr (fun index inside => ?_)
  rw [placed.index?_eq inside, Option.some.injEq]

/-- A table is a permutation under the same condition: otherwise two indices collide. -/
theorem permutes_iff (placed : table.AtOffset count offset) (word : offset < Numeral.wordLimit)
    : table.Permutes count
      ↔ offset + count ≤ Numeral.wordLimit ∨ count ∣ Numeral.wordLimit := by
  constructor
  · intro permutes
    by_contra wraps
    rw [not_or, Nat.not_le] at wraps
    obtain ⟨index, other, before, inside, same⟩ := exists_collision word wraps.1 wraps.2
    have found := (placed.index?_eq (Nat.lt_trans before inside)).trans (congrArg some same)
    exact absurd (permutes.own found (placed.index?_eq inside)) before.ne
  · intro exact
    refine Table.Renumbers.permutes (@renumbers_of_exact count offset _ ?_)
    rw [placed.eq, toList_shifted]
    refine List.map_congr_left (fun index inside => ?_)
    exact (advanced_exact_iff word).mpr exact index (List.mem_range.mp inside)

end Table.AtOffset

/-- An offset that a signed word can hold may go around the strip before it is written down. -/
theorem shifted_mod (signed : offset < Numeral.signedLimit)
    : shifted count (offset % max count 1) = shifted count offset := by
  rcases Nat.lt_or_ge offset (max count 1) with below | above
  · rw [Nat.mod_eq_of_lt below]
  · have limit : Numeral.signedLimit + Numeral.signedLimit = Numeral.wordLimit := rfl
    have less := Nat.mod_lt offset (show 0 < max count 1 by omega)
    rw [← Array.toList_inj, toList_shifted, toList_shifted]
    refine List.map_congr_left (fun index inside => ?_)
    have inside := List.mem_range.mp inside
    have strip : max count 1 = count := by omega
    rw [strip] at less ⊢
    rw [(advanced_exact_iff (by omega)).mpr (.inl (by omega)) index inside,
      (advanced_exact_iff (by omega)).mpr (.inl (by omega)) index inside, Nat.add_mod_mod]

end Remap

open Descriptor (Stage)
open Remap (Table)

-----------------------------------------------------------------------------------------
-- Filters of a fixed offset
-----------------------------------------------------------------------------------------

/-- The stage of an offset of any size is read back from its written form. -/
theorem wellFormed_shiftStage (offset : Nat) : (Remap.Rule.shift offset).stage.WellFormed := by
  have name : "shift".toList.all Descriptor.isNameChar = true := by decide
  refine .of_plain (by decide : "shift" ≠ "") name ?_
  intro arg member
  obtain rfl := List.mem_singleton.mp member
  exact Descriptor.plain_decimal offset

/-- The stage of an offset makes a filter exactly if a signed word can hold the offset. -/
theorem applyFilter_shiftStage {inner node : Node} {offset : Nat} {supply supply' : SeedSupply}
    : Catalog.standard.applyFilter (Remap.Rule.shift offset).stage inner supply
        = .ok (node, supply')
      ↔ offset < Numeral.signedLimit
        ∧ node
          = .remap (Table.initial (.shift (offset % max inner.count 1)) inner.count) inner
        ∧ supply = supply' := by
  have entered : (Catalog.standard.find? "shift").map Entry.maker
      = some (.filter Standard.shift) := by
    rfl
  exact (Catalog.applyFilter_eq_ok entered).trans Standard.shift_decimal_eq_ok

/-- Which offsets a filter can be moved by. Its table goes around the strip exactly, and then it is
a permutation, if all sums of an index and the offset are words or the strip divides the number of
words, and otherwise it is none. Its description is built again if a signed word can hold the
offset, and then with the same table, and otherwise it builds nothing.
-/
theorem offset_exact_iff {inner : Node} {offset : Nat} {table : Table}
    (word : offset < Numeral.wordLimit) (placed : table.AtOffset inner.count offset)
    : ((∀ index < inner.count, table.index? index = some ((index + offset) % inner.count))
        ↔ offset + inner.count ≤ Numeral.wordLimit ∨ inner.count ∣ Numeral.wordLimit)
      ∧ (table.Permutes inner.count
        ↔ offset + inner.count ≤ Numeral.wordLimit ∨ inner.count ∣ Numeral.wordLimit)
      ∧ ∀ spacing supply again rest,
        Catalog.standard.build spacing inner.describe supply = .ok (again, rest) →
        again.count = inner.count →
        ∀ node rest',
          Catalog.standard.build spacing (Node.remap table inner).describe supply
            = .ok (node, rest')
          ↔ offset < Numeral.signedLimit
            ∧ node
              = .remap ⟨.shift (offset % max inner.count 1), table.indices⟩ again
            ∧ rest = rest' := by
  refine ⟨placed.exact_iff word, placed.permutes_iff word, ?_⟩
  intro spacing supply again rest built count node rest'
  have described : (Node.remap table inner).describe
      = (Remap.Rule.shift offset).stage.display ++ "|" ++ inner.describe := by
    rw [Node.describe, placed.eq, Remap.Rule.display_stage]
  rw [described, Catalog.build_display_cons (wellFormed_shiftStage offset)]
  have same (signed : offset < Numeral.signedLimit)
      : Table.initial (.shift (offset % max inner.count 1)) inner.count
        = ⟨.shift (offset % max inner.count 1), table.indices⟩ := by
    rw [Table.initial, Remap.shifted_mod signed, placed.eq]
  constructor
  · rintro ⟨found, between, first, applied⟩
    obtain ⟨rfl, rfl⟩ := Prod.mk.inj (Except.ok.inj (built.symm.trans first))
    obtain ⟨signed, rfl, rfl⟩ := applyFilter_shiftStage.mp applied
    rw [count, same signed]
    exact ⟨signed, rfl, rfl⟩
  · rintro ⟨signed, rfl, rfl⟩
    refine ⟨again, rest, built, applyFilter_shiftStage.mpr ⟨signed, ?_, rfl⟩⟩
    rw [count, same signed]

/-- Five pixels moved on by seven go around exactly, and are built again from their description. -/
theorem offset_exact_of_seven
    : ∃ table again rest,
        table.AtOffset (Node.ofCount 5).count 7
        ∧ (∀ index < (Node.ofCount 5).count,
            table.index? index = some ((index + 7) % (Node.ofCount 5).count))
        ∧ table.Permutes (Node.ofCount 5).count
        ∧ (Node.remap table (Node.ofCount 5)).describe = "shift:7|null:5"
        ∧ Catalog.standard.build 0 (Node.ofCount 5).describe ⟨fun _ => 7⟩ = .ok (again, rest)
        ∧ Catalog.standard.build 0 (Node.remap table (Node.ofCount 5)).describe ⟨fun _ => 7⟩
          = .ok
              (.remap ⟨.shift (7 % max (Node.ofCount 5).count 1), table.indices⟩ again, rest) := by
  have count : (Node.ofCount 5).count = 5 := Array.size_replicate
  have counted : (Catalog.standard.build 0 (Node.ofCount 5).describe ⟨fun _ => 7⟩).map
      (fun made => made.1.count) = .ok 5 := by
    decide +kernel
  obtain ⟨⟨again, rest⟩, built, five⟩ := exists_of_map_eq_ok counted
  have placed : (Table.initial (.shift 7) 5).AtOffset (Node.ofCount 5).count 7 := by
    rw [count]
    exact .made rfl
  have small : 7 < Numeral.signedLimit := by decide
  have fits : 7 + (Node.ofCount 5).count ≤ Numeral.wordLimit := by
    rw [count]
    decide
  obtain ⟨around, permutes, rebuilt⟩ := offset_exact_iff (by decide) placed
  exact ⟨_, again, rest, placed, around.mpr (.inl fits), permutes.mpr (.inl fits),
    by decide +kernel, built,
    (rebuilt 0 _ again rest built (five.trans count.symm) _ rest).mpr ⟨small, rfl, rfl⟩⟩

/-- The last offset of all leads two pixels of five to the first one, and the description of an
offset beyond the signed words builds nothing.
-/
theorem offset_wraps_wrong
    : ¬ (∀ index < 5,
          (Table.initial (.shift (Numeral.wordLimit - 1)) 5).index? index
            = some ((index + (Numeral.wordLimit - 1)) % 5))
      ∧ ¬ (Table.initial (.shift (Numeral.wordLimit - 1)) 5).Permutes 5
      ∧ ∃ strip,
          buildTree Catalog.standard 0 ⟨fun _ => 7⟩ (Node.ofCount 5).describe = .ok strip
          ∧ strip.count = 5
          ∧ ¬ ∃ again,
              buildTree Catalog.standard 0 ⟨fun _ => 7⟩
                (Node.remap (Table.initial (.shift Numeral.signedLimit) 5)
                  (Node.ofCount 5)).describe
                = .ok again := by
  have indices : (Table.initial (.shift (Numeral.wordLimit - 1)) 5).indices = #[0, 0, 1, 2, 3] := by
    decide +kernel
  refine ⟨?_, ?_, ?_⟩
  · intro around
    have second := around 1 (by decide)
    rw [Table.index?, indices] at second
    revert second
    decide +kernel
  · intro permutes
    have own := @permutes.own 0 1 0
    rw [Table.index?, Table.index?, indices] at own
    exact absurd (own rfl rfl) (by decide)
  · have described : (buildTree Catalog.standard 0 ⟨fun _ => 7⟩ (Node.ofCount 5).describe).map
        Node.count = .ok 5 := by
      decide +kernel
    have refused : (buildTree Catalog.standard 0 ⟨fun _ => 7⟩
        (Node.remap (Table.initial (.shift Numeral.signedLimit) 5)
          (Node.ofCount 5)).describe).map Node.count
        = .error (.badArguments "shift" (.bad "offset" "9223372036854775808")) := by
      decide +kernel
    obtain ⟨strip, built, count⟩ := exists_of_map_eq_ok described
    refine ⟨strip, built, count, ?_⟩
    rintro ⟨again, rebuilt⟩
    rw [rebuilt] at refused
    cases refused

end PixelTree
