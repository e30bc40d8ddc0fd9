import Mathlib.Data.List.Nodup
import Mathlib.Data.List.Perm.Subperm
import Mathlib.Tactic.Linarith
import PixelTree.Node.Basic

/-! Every table renumbers: it holds each index of its strip exactly once, whatever the rule and
whatever the time.
-/

namespace PixelTree

namespace Random

variable {α : Type}

/-- A swap moves two elements, and nothing if a place is out of bounds. -/
theorem perm_swapIfInBounds (xs : Array α) (i j : Nat)
    : (xs.swapIfInBounds i j).toList.Perm xs.toList := by
  rw [Array.swapIfInBounds_def]
  split
  · split
    · exact (Array.swap_perm _ _).toList
    · exact .refl _
  · exact .refl _

/-- A chain of swaps only moves elements, by induction over the partners. -/
theorem perm_applySwaps (xs : Array α) (position : Nat) (partners : List Nat)
    : (applySwaps xs position partners).toList.Perm xs.toList := by
  induction partners generalizing xs position with
  | nil => exact .refl _
  | cons index rest ih => exact (ih _ _).trans (perm_swapIfInBounds xs position index)

/-- A shuffle only moves elements. -/
theorem perm_shuffle (seed : UInt64) (xs : Array α)
    : (shuffle seed xs).toList.Perm xs.toList := by
  unfold shuffle
  split
  · exact .refl _
  · exact perm_applySwaps _ _ _

end Random

namespace Remap

/-- A number that is a place of a strip up to whole turns has this place for a remainder. -/
theorem toNat_emod_eq_of_dvd {count place : Nat} {i : Int} (inside : place < count)
    (turns : (count : Int) ∣ i - place)
    : (i % (count : Int)).toNat = place := by
  have same : i % (count : Int) = (place : Int) % count :=
    Int.emod_eq_emod_iff_emod_sub_eq_zero.mpr (Int.emod_eq_zero_of_dvd turns)
  rw [same, ← Int.natCast_mod, Int.toNat_natCast, Nat.mod_eq_of_lt inside]

/-- A run that starts below its stride holds the indices with its start for a remainder. -/
theorem mem_strided {count stride start index : Nat} (below : start < stride)
    : index ∈ strided count stride start ↔ index < count ∧ index % stride = start := by
  have positive : 0 < stride := by omega
  have inRange : ∀ k,
      k < (count - start + stride - 1) / stride ↔ start + k * stride < count := by
    intro k
    rw [Nat.lt_iff_add_one_le, Nat.le_div_iff_mul_le positive, Nat.add_mul, Nat.one_mul]
    omega
  simp only [strided, List.mem_map, List.mem_range, inRange]
  constructor
  · rintro ⟨k, inside, rfl⟩
    rw [Nat.add_mul_mod_self_right, Nat.mod_eq_of_lt below]
    exact ⟨inside, rfl⟩
  · rintro ⟨inside, rfl⟩
    have whole : index % stride + index / stride * stride = index := Nat.mod_add_div' _ _
    exact ⟨index / stride, by rw [whole]; exact inside, whole⟩

theorem nodup_strided {count stride start : Nat} (positive : 0 < stride)
    : (strided count stride start).Nodup := by
  apply List.Nodup.map _ List.nodup_range
  intro a b same
  have products : a * stride = b * stride := Nat.add_left_cancel same
  exact Nat.eq_of_mul_eq_mul_right positive products

/-- The runs together hold every index once: an index belongs to the run of its remainder. -/
theorem perm_interleaved {count stride : Nat} (positive : 0 < stride)
    : (interleaved count stride).Perm (List.range count) := by
  have nodup : (interleaved count stride).Nodup := by
    refine List.nodup_flatMap.mpr ⟨fun _ _ => nodup_strided positive, ?_⟩
    refine List.nodup_range.imp_of_mem ?_
    intro a b ha hb differ index inA inB
    have belowA := List.mem_range.mp ha
    have belowB := List.mem_range.mp hb
    have remainderA := (mem_strided (by omega)).mp inA
    have remainderB := (mem_strided (by omega)).mp inB
    exact differ (remainderA.2.symm.trans remainderB.2)
  refine (List.perm_ext_iff_of_nodup nodup List.nodup_range).mpr ?_
  intro index
  rw [List.mem_range]
  constructor
  · intro member
    obtain ⟨start, inRange, inRun⟩ := List.mem_flatMap.mp member
    have below := List.mem_range.mp inRange
    exact ((mem_strided (by omega)).mp inRun).1
  · intro below
    have remainder : index % stride < stride := Nat.mod_lt _ positive
    have small : index % stride ≤ index := Nat.mod_le _ _
    exact List.mem_flatMap.mpr
      ⟨index % stride, List.mem_range.mpr (by omega), (mem_strided remainder).mpr ⟨below, rfl⟩⟩

/-- Moving on by an offset goes around the strip, where no sum is too large for a word. -/
theorem advanced_eq {count offset index : Nat} (small : count ≤ Numeral.signedLimit)
    (ho : offset < count) (hi : index < count)
    : advanced count offset index
      = if index + offset < count then index + offset else index + offset - count := by
  have limit : Numeral.signedLimit + Numeral.signedLimit = Numeral.wordLimit := rfl
  have noWrap : (index + offset) % Numeral.wordLimit = index + offset :=
    Nat.mod_eq_of_lt (by omega)
  rw [advanced, noWrap]
  split
  · next below => exact Nat.mod_eq_of_lt below
  · next reached =>
      rw [Nat.mod_eq_sub_mod (by omega), Nat.mod_eq_of_lt (by omega)]

/-- Places of a strip of which no two indices have the same are the indices in another order. -/
theorem perm_map_range {count : Nat} {place : Nat → Nat}
    (inside : ∀ index < count, place index < count)
    (own : ∀ index < count, ∀ other < count, place index = place other → index = other)
    : ((List.range count).map place).Perm (List.range count) := by
  have nodup : ((List.range count).map place).Nodup := by
    refine List.Nodup.map_on ?_ List.nodup_range
    intro index inRange other inRange' same
    exact own index (List.mem_range.mp inRange) other (List.mem_range.mp inRange') same
  have subset : (List.range count).map place ⊆ List.range count := by
    intro found member
    obtain ⟨index, inRange, rfl⟩ := List.mem_map.mp member
    exact List.mem_range.mpr (inside index (List.mem_range.mp inRange))
  refine (nodup.subperm subset).perm_of_length_le ?_
  rw [List.length_map]

/-- Indices that are moved on by an offset are all indices in another order: no two of them go
to the same place.
-/
theorem perm_shifted {count offset : Nat} (small : count ≤ Numeral.signedLimit)
    (ho : offset < count)
    : (shifted count offset).toList.Perm (List.range count) := by
  rw [shifted, Array.toList_map, Array.toList_range]
  refine perm_map_range (fun index _ => Nat.mod_lt _ (by omega)) ?_
  intro a belowA b belowB same
  rw [advanced_eq small ho belowA, advanced_eq small ho belowB] at same
  split at same <;> split at same <;> omega

/-- The data of a rule that is made for a strip of `count` pixels: its words are words, its
speed is finite, and a fixed offset is that of a pixel if there is one.
-/
def Rule.Fits (count : Nat) : Rule → Prop
  | .random _ => True
  | .skip stride => 0 < stride ∧ stride < Numeral.wordLimit
  | .shift offset => offset < max count 1
  | .rotate speed => speed.isFinite = true
  | .bounce speed after =>
    speed.isFinite = true ∧ 0 < after ∧ after < Numeral.wordLimit
      ∧ (Rule.span? count after).isSome = true

theorem Rule.fits_skip {count stride : Nat} (word : stride < Numeral.wordLimit)
    (applies : (Rule.skip stride).check count = .ok ())
    : (Rule.skip stride).Fits count := by
  rw [Rule.check] at applies
  split at applies
  · cases applies
  · next positive => exact ⟨Nat.pos_of_ne_zero positive, word⟩

theorem Rule.fits_rotate {count : Nat} {speed : Float}
    (applies : (Rule.rotate speed).check count = .ok ())
    : (Rule.rotate speed).Fits count := by
  rw [Rule.check] at applies
  split at applies
  · next finite => exact finite
  · cases applies

/-- A bounce that applies fits. -/
theorem Rule.fits_bounce {count after : Nat} {speed : Float} (word : after < Numeral.wordLimit)
    (applies : (Rule.bounce speed after).check count = .ok ())
    : (Rule.bounce speed after).Fits count := by
  rw [Rule.check] at applies
  split at applies
  · cases applies
  · next finite =>
      split at applies
      · cases applies
      · next positive =>
          split at applies
          · cases applies
          · next span =>
              refine ⟨by simpa using finite, Nat.pos_of_ne_zero positive, word, ?_⟩
              simpa [Option.isSome_iff_ne_none] using span

/-- A rule that fits a strip applies to it. -/
theorem Rule.Fits.applies {rule : Rule} {count : Nat} (fits : rule.Fits count)
    : rule.check count = .ok () := by
  cases rule with
  | random seed => rfl
  | skip stride =>
      rw [check, if_neg fits.1.ne']
      rfl
  | shift offset => rfl
  | rotate speed =>
      have finite : speed.isFinite = true := fits
      rw [check, if_pos finite]
      rfl
  | bounce speed after =>
      obtain ⟨finite, positive, _, span⟩ := fits
      rw [check, if_neg (by simp [finite]), if_neg positive.ne',
        if_neg (by simp [Option.isSome_iff_ne_none.mp span])]
      rfl

/-- A table that holds each index of a strip once. -/
def Table.Renumbers (table : Table) (count : Nat) : Prop :=
  table.indices.toList.Perm (List.range count)

theorem Table.Renumbers.size_eq {table : Table} {count : Nat} (renumbers : table.Renumbers count)
    : table.size = count := by
  have lengths := renumbers.length_eq
  rwa [List.length_range, Array.length_toList] at lengths

/-- The rounded number of steps that a rule that moves has gone after a span of time. -/
def Rule.stepsAt (count elapsed : Nat) : Rule → Int64
  | .rotate speed | .bounce speed _ =>
    (Time.seconds elapsed * speed * (UInt64.ofNat count).toFloat).round.toInt64
  | _ => 0

/-- The table with another offset, if there is one and there are pixels. -/
def Table.movedTo (table : Table) (offset : Option Nat) : Table :=
  if table.size = 0 then table
  else
    match offset with
    | none => table
    | some offset => { table with indices := shifted table.size offset }

/-- The table after a number of steps, whatever time they took. -/
def Table.afterSteps (table : Table) (step : Int64) : Table :=
  table.movedTo (offsetAfter? table.size (fun _ => step.toInt) table.rule)

theorem Table.atTime_eq (table : Table) (elapsed : Nat)
    : table.atTime elapsed = table.afterSteps (table.rule.stepsAt table.size elapsed) := by
  have offsets : offsetAfter? table.size (steps elapsed · table.size) table.rule
      = offsetAfter? table.size (fun _ => (table.rule.stepsAt table.size elapsed).toInt)
          table.rule := by
    cases table.rule <;> simp only [offsetAfter?, steps, Rule.stepsAt]
  exact congrArg table.movedTo offsets

@[simp] theorem Table.rule_afterSteps (table : Table) (step : Int64)
    : (table.afterSteps step).rule = table.rule := by
  unfold Table.afterSteps Table.movedTo
  split
  · rfl
  · split <;> rfl

@[simp] theorem Table.size_afterSteps (table : Table) (step : Int64)
    : (table.afterSteps step).size = table.size := by
  unfold Table.afterSteps Table.movedTo
  split
  · rfl
  · split
    · rfl
    · simp [Table.size, shifted]

@[simp] theorem Table.rule_atTime (table : Table) (elapsed : Nat)
    : (table.atTime elapsed).rule = table.rule := by
  rw [atTime_eq, rule_afterSteps]

@[simp] theorem Table.size_atTime (table : Table) (elapsed : Nat)
    : (table.atTime elapsed).size = table.size := by
  rw [atTime_eq, size_afterSteps]

@[simp] theorem Table.rule_initial (rule : Rule) (count : Nat)
    : (Table.initial rule count).rule = rule := by
  cases rule with
  | random seed => rfl
  | skip stride => rfl
  | shift offset => rfl
  | rotate speed => exact Table.rule_atTime _ _
  | bounce speed after => exact Table.rule_atTime _ _

/-- The offset of a moving rule is that of a pixel. -/
theorem offsetAfter?_lt {count offset : Nat} {stepsAt : Float → Int} {rule : Rule}
    (positive : 0 < count) (found : offsetAfter? count stepsAt rule = some offset)
    : offset < count := by
  unfold offsetAfter? at found
  split at found
  · next speed =>
      have least := Int.emod_nonneg (stepsAt speed) (b := count) (by omega)
      have most := Int.emod_lt_of_pos (stepsAt speed) (b := count) (by omega)
      obtain rfl := Option.some.inj found
      omega
  · next speed after =>
      obtain ⟨span, _, rfl⟩ := Option.map_eq_some_iff.mp found
      exact Nat.mod_lt _ positive
  · cases found

/-- A table goes on renumbering its strip after any number of steps. -/
theorem Table.Renumbers.afterSteps {table : Table} {count : Nat}
    (small : count ≤ Numeral.signedLimit) (renumbers : table.Renumbers count) (step : Int64)
    : (table.afterSteps step).Renumbers count := by
  have size := renumbers.size_eq
  unfold Table.afterSteps Table.movedTo
  split
  · exact renumbers
  · split
    · exact renumbers
    · next positive _ offset found =>
        have below := offsetAfter?_lt (Nat.pos_of_ne_zero positive) found
        rw [size] at below ⊢
        exact perm_shifted small below

/-- A table goes on renumbering its strip at every time. -/
theorem Table.Renumbers.atTime {table : Table} {count : Nat}
    (small : count ≤ Numeral.signedLimit) (renumbers : table.Renumbers count) (elapsed : Nat)
    : (table.atTime elapsed).Renumbers count := by
  rw [Table.atTime_eq]
  exact renumbers.afterSteps small _

/-- A rule that fits a strip and moves has an offset after every number of steps. -/
theorem Rule.Fits.exists_offset {rule : Rule} {count : Nat} (fits : rule.Fits count)
    (moves : rule.moves = true) (step : Int64)
    : ∃ offset, offsetAfter? count (fun _ => step.toInt) rule = some offset := by
  cases rule with
  | rotate speed => exact ⟨_, rfl⟩
  | bounce speed after =>
      obtain ⟨span, found⟩ := Option.isSome_iff_exists.mp fits.2.2.2
      exact ⟨_, by rw [offsetAfter?, found]; rfl⟩
  | random seed => cases moves
  | skip stride => cases moves
  | shift offset => cases moves

/-- Whatever was in it before, the table of a rule that moves renumbers its strip as soon as its
steps are told.
-/
theorem Rule.Fits.renumbers_afterSteps {rule : Rule} {count : Nat} (fits : rule.Fits count)
    (small : count ≤ Numeral.signedLimit) (moves : rule.moves = true) (step : Int64)
    : (Table.afterSteps ⟨rule, Array.replicate count 0⟩ step).Renumbers count := by
  rcases Nat.eq_zero_or_pos count with rfl | positive
  · exact .refl _
  · obtain ⟨offset, found⟩ := fits.exists_offset moves step
    have size : Table.size ⟨rule, Array.replicate count 0⟩ = count := Array.size_replicate
    unfold Table.afterSteps Table.movedTo
    rw [if_neg (by omega), size, found]
    exact perm_shifted small (offsetAfter?_lt positive found)

/-- The first table of a rule that fits a strip renumbers the strip, by cases on the rule. -/
theorem Rule.Fits.renumbers {rule : Rule} {count : Nat} (fits : rule.Fits count)
    (small : count ≤ Numeral.signedLimit)
    : (Table.initial rule count).Renumbers count := by
  cases rule with
  | random seed =>
      have shuffled := Random.perm_shuffle seed (Array.range count)
      rwa [Array.toList_range] at shuffled
  | skip stride => exact perm_interleaved fits.1
  | shift offset =>
      rcases Nat.eq_zero_or_pos count with rfl | positive
      · simp [Table.Renumbers, Table.initial, shifted]
      · have below : offset < max count 1 := fits
        exact perm_shifted small (by omega)
  | rotate speed =>
      have started := fits.renumbers_afterSteps small rfl
      simp only [Table.initial, Table.atTime_eq]
      exact started _
  | bounce speed after =>
      have started := fits.renumbers_afterSteps small rfl
      simp only [Table.initial, Table.atTime_eq]
      exact started _

end Remap

namespace Node

/-- A rule that applies to a node is put around it together with its first table. -/
theorem remapped_eq_ok {rule : Remap.Rule} {inner node : Node}
    : Node.remapped rule inner = .ok node
      ↔ rule.check inner.count = .ok ()
        ∧ node = .remap (Remap.Table.initial rule inner.count) inner := by
  unfold Node.remapped Remap.Table.make
  cases rule.check inner.count with
  | error fault =>
      constructor
      · intro made
        cases made
      · rintro ⟨applies, _⟩
        cases applies
  | ok done =>
      constructor
      · intro made
        exact ⟨rfl, (Except.ok.inj made).symm⟩
      · rintro ⟨_, rfl⟩
        rfl

end Node

end PixelTree
