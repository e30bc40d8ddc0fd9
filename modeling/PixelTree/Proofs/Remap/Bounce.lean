import PixelTree.Proofs.Remap.Machine

/-! The walk of a bounce. It goes to and fro between the first place and the last one of its span
and repeats itself with a period that is odd: it stays for one step at the last place before it
turns, but turns at once at the first one. A bounce applies exactly to the strips for which the
period can be told, and then the last number of steps that it was told decides its table.
-/

namespace PixelTree

namespace Remap

-----------------------------------------------------------------------------------------
-- Walks
-----------------------------------------------------------------------------------------

/-- A walk along a span, forwards and backwards in time, which starts at the first place, goes at
most one place at a step, and is at both ends in every period.
-/
structure ReflectingWalk (span period : Nat) (place : Int → Nat) : Prop where
  start : place 0 = 0
  inside : ∀ step, place step < span
  gradual : ∀ step, place (step + 1) ≤ place step + 1 ∧ place step ≤ place (step + 1) + 1
  periodic : ∀ step, place (step + period) = place step
  meetsFirst
    : ∀ step : Int, ∃ later : Int, step ≤ later ∧ later < step + period ∧ place later = 0
  meetsLast
    : ∀ step : Int, ∃ later : Int, step ≤ later ∧ later < step + period ∧ place later = span - 1

variable {span : Nat}

/-- The place on the way there or back, as many steps into a period. -/
def turnedAt (span rest : Nat) : Nat :=
  if rest < span then rest else 2 * span - 1 - rest

theorem period_eq (positive : 1 ≤ span) : period span = 2 * span - 1 :=
  Nat.max_eq_left (by omega)

/-- Steps that are whole periods apart are at the same place. -/
theorem bouncePlace_eq_of_dvd (positive : 1 ≤ span) {step : Int} {rest : Nat}
    (inside : rest < 2 * span - 1) (turns : ((2 * span - 1 : Nat) : Int) ∣ step - rest)
    : bouncePlace span step = turnedAt span rest := by
  rw [bouncePlace, period_eq positive, toNat_emod_eq_of_dvd inside turns, turnedAt]

/-- Every step is some steps into a period. -/
theorem exists_rest (positive : 1 ≤ span) (step : Int)
    : ∃ rest : Nat, rest < 2 * span - 1 ∧ ((2 * span - 1 : Nat) : Int) ∣ step - rest := by
  have least := Int.emod_nonneg step (b := ((2 * span - 1 : Nat) : Int)) (by omega)
  have most := Int.emod_lt_of_pos step (b := ((2 * span - 1 : Nat) : Int)) (by omega)
  obtain ⟨rest, stepped⟩ := Int.eq_ofNat_of_zero_le least
  refine ⟨rest, by omega, ?_⟩
  rw [← stepped]
  exact Int.dvd_self_sub_emod

/-- In every period there is a step that is a given number of steps into one. -/
theorem exists_later {rest : Nat} (inside : rest < 2 * span - 1) (step : Int)
    : ∃ later : Int,
        step ≤ later ∧ later < step + (2 * span - 1 : Nat)
        ∧ ((2 * span - 1 : Nat) : Int) ∣ later - rest := by
  obtain ⟨missing, less, turns⟩ := exists_rest (show 1 ≤ span by omega) (rest - step)
  refine ⟨step + missing, by omega, by omega, ?_⟩
  have negated := Int.dvd_neg.mpr turns
  have both : -((rest : Int) - step - missing) = step + missing - rest := by
    omega
  rwa [both] at negated

/-- A bounce is a reflecting walk. -/
theorem reflectingWalk_bouncePlace (positive : 1 ≤ span)
    : ReflectingWalk span (2 * span - 1) (bouncePlace span) where
  start := by
    have first : 0 < 2 * span - 1 := by
      omega
    rw [bouncePlace_eq_of_dvd positive first (by simp), turnedAt, if_pos (by omega)]
  inside := by
    intro step
    obtain ⟨rest, inside, turns⟩ := exists_rest positive step
    rw [bouncePlace_eq_of_dvd positive inside turns, turnedAt]
    split <;> omega
  gradual := by
    intro step
    obtain ⟨rest, inside, turns⟩ := exists_rest positive step
    rw [bouncePlace_eq_of_dvd positive inside turns]
    by_cases last : rest + 1 < 2 * span - 1
    · have turns' : ((2 * span - 1 : Nat) : Int) ∣ step + 1 - (rest + 1 : Nat) := by
        rwa [Nat.cast_add, Nat.cast_one, add_sub_add_right_eq_sub]
      rw [bouncePlace_eq_of_dvd positive last turns', turnedAt, turnedAt]
      split_ifs <;> omega
    · have turns' : ((2 * span - 1 : Nat) : Int) ∣ step + 1 - (0 : Nat) := by
        have whole : step + 1 - (0 : Nat) = step - rest + (2 * span - 1 : Nat) := by
          omega
        rw [whole]
        exact Int.dvd_add turns (Int.dvd_refl _)
      rw [bouncePlace_eq_of_dvd positive (by omega) turns', turnedAt, turnedAt]
      split_ifs <;> omega
  periodic := by
    intro step
    obtain ⟨rest, inside, turns⟩ := exists_rest positive step
    have turns' : ((2 * span - 1 : Nat) : Int) ∣ step + (2 * span - 1 : Nat) - rest := by
      rw [add_sub_right_comm]
      exact Int.dvd_add turns (Int.dvd_refl _)
    rw [bouncePlace_eq_of_dvd positive inside turns, bouncePlace_eq_of_dvd positive inside turns']
  meetsFirst := by
    intro step
    have first : 0 < 2 * span - 1 := by
      omega
    obtain ⟨later, least, most, turns⟩ := exists_later first step
    refine ⟨later, least, most, ?_⟩
    rw [bouncePlace_eq_of_dvd positive first turns, turnedAt, if_pos (by omega)]
  meetsLast := by
    intro step
    have last : span - 1 < 2 * span - 1 := by
      omega
    obtain ⟨later, least, most, turns⟩ := exists_later last step
    refine ⟨later, least, most, ?_⟩
    rw [bouncePlace_eq_of_dvd positive last turns, turnedAt, if_pos (by omega)]

-----------------------------------------------------------------------------------------
-- Tables
-----------------------------------------------------------------------------------------

theorem Rule.span?_eq_some {count after : Nat}
    (fits : 2 * (count * after) < Numeral.signedLimit)
    : span? count after = some (count * after) := by
  rw [span?_eq, if_pos fits]

/-- A bounce applies exactly to the strips for which the double of its span is a signed word. -/
theorem Rule.check_bounce_eq_ok {count after : Nat} {speed : Float}
    (finite : speed.isFinite = true) (positive : 1 ≤ after)
    : (Rule.bounce speed after).check count = .ok ()
      ↔ 2 * (count * after) < Numeral.signedLimit := by
  rw [check, if_neg (by simp [finite]), if_neg (by omega), span?_eq]
  by_cases fits : 2 * (count * after) < Numeral.signedLimit
  · rw [if_pos fits, if_neg (by simp)]
    exact ⟨fun _ => fits, fun _ => rfl⟩
  · rw [if_neg fits, if_pos (by simp)]
    exact ⟨fun refused => (by cases refused), fun short => absurd short fits⟩

variable {table : Table} {speed : Float} {after : Nat}

/-- A table that bounces is moved on by its place in the walk. -/
theorem Table.afterSteps_bounce (rule : table.rule = .bounce speed after)
    (found : Rule.span? table.size after = some span) (positive : 0 < table.size) (step : Int64)
    : table.afterSteps step
      = ⟨.bounce speed after,
          shifted table.size (bouncePlace span step.toInt % table.size)⟩ := by
  unfold afterSteps movedTo
  rw [if_neg positive.ne', rule, offsetAfter?, found, Option.map_some]

/-- Whatever steps a table that bounces was told, the last ones decide, by induction over them. -/
theorem Table.foldl_afterSteps_bounce (rule : table.rule = .bounce speed after)
    (found : Rule.span? table.size after = some span) (positive : 0 < table.size) (first : Int64)
    (steps : List Int64)
    : steps.foldl afterSteps (table.afterSteps first)
      = ⟨.bounce speed after,
          shifted table.size (bouncePlace span (steps.getLastD first).toInt % table.size)⟩ := by
  induction steps generalizing table first with
  | nil => exact afterSteps_bounce rule found positive first
  | cons step rest ih =>
      have size := table.size_afterSteps first
      have later := ih ((table.rule_afterSteps first).trans rule) (by rwa [size]) (by rwa [size])
        step
      rw [List.foldl_cons, List.getLastD_cons]
      rwa [size] at later

theorem index?_shifted {count offset index : Nat} (small : count < Numeral.signedLimit)
    (below : offset < count) (inside : index < count) (rule : Rule)
    : Table.index? ⟨rule, shifted count offset⟩ index = some ((index + offset) % count) := by
  have limit : Numeral.signedLimit + Numeral.signedLimit = Numeral.wordLimit := rfl
  have sum : (index + offset) % Numeral.wordLimit = index + offset :=
    Nat.mod_eq_of_lt (by omega)
  rw [Table.index?, shifted, Array.getElem?_map, Array.getElem?_range, if_pos inside,
    Option.map_some, advanced, sum]

/-- A machine finds the table of the last steps that it was told, and nothing stops it. -/
theorem Machine.run_bounce {count : Nat} (positive : 0 < count)
    (small : count < Numeral.signedLimit) (found : Rule.span? count after = some span)
    (first : Int64) (steps : List Int64)
    : run (.bounce speed after) count first steps
      = .ok ⟨.bounce speed after,
          shifted count (bouncePlace span (steps.getLastD first).toInt % count)⟩ := by
  have size : Table.size ⟨.bounce speed after, Array.replicate count 0⟩ = count :=
    Array.size_replicate
  rw [run_of_moves small rfl, Table.foldl_afterSteps_bounce rfl (by rwa [size]) (by rwa [size]),
    size]

end Remap

open Remap (Rule Table ReflectingWalk bouncePlace Machine.run Machine.span?)

namespace Node

/-- A bounce is made exactly if the double of its span is a signed word, and that is if the checked
products of a machine find the span. Its places are a reflecting walk. Whatever numbers of steps a
machine is told, nothing stops it, and the last of them decides the table: it is moved on by the
place in the walk. The tables of the tree are those of the machine.
-/
theorem bounce_reflects {inner : Node} {speed : Float} {after : Nat} (pixels : 1 ≤ inner.count)
    (turns : 1 ≤ after) (finite : speed.isFinite = true)
    : ((∃ node, Node.remapped (.bounce speed after) inner = .ok node)
        ↔ 2 * (inner.count * after) < Numeral.signedLimit)
      ∧ ((∃ node, Node.remapped (.bounce speed after) inner = .ok node)
        ↔ (Machine.span? inner.count after).isSome = true)
      ∧ ReflectingWalk (inner.count * after) (2 * (inner.count * after) - 1)
          (bouncePlace (inner.count * after))
      ∧ ∀ node, Node.remapped (.bounce speed after) inner = .ok node →
          ∃ table,
            node = .remap table inner
            ∧ (∀ (first : Int64) (steps : List Int64),
                ∃ found,
                  Machine.run (.bounce speed after) inner.count first steps = .ok found
                  ∧ found.size = inner.count
                  ∧ ∀ index < inner.count,
                    found.index? index
                      = some ((index
                          + bouncePlace (inner.count * after) (steps.getLastD first).toInt
                            % inner.count) % inner.count))
            ∧ ∀ times : List Nat,
                Machine.run (.bounce speed after) inner.count
                    ((Rule.bounce speed after).stepsAt inner.count 0)
                    (times.map ((Rule.bounce speed after).stepsAt inner.count))
                  = .ok (times.foldl Table.atTime table) := by
  have applies := @Rule.check_bounce_eq_ok inner.count after speed finite turns
  have places : 1 ≤ inner.count * after := Nat.mul_pos pixels turns
  have accepts : (∃ node, Node.remapped (.bounce speed after) inner = .ok node)
      ↔ 2 * (inner.count * after) < Numeral.signedLimit := by
    rw [← applies]
    constructor
    · rintro ⟨node, made⟩
      exact (remapped_eq_ok.mp made).1
    · intro applied
      exact ⟨_, remapped_eq_ok.mpr ⟨applied, rfl⟩⟩
  refine ⟨accepts, ?_, Remap.reflectingWalk_bouncePlace places, ?_⟩
  · rw [accepts, Remap.Machine.span?_eq, Option.isSome_map, Rule.span?_eq]
    split
    · next fits => simp [fits]
    · next overflows => simp [overflows]
  · intro node made
    obtain ⟨applied, rfl⟩ := remapped_eq_ok.mp made
    have fits := applies.mp applied
    have some := Rule.span?_eq_some fits
    have small : inner.count < Numeral.signedLimit := by
      have less := Nat.le_mul_of_pos_right inner.count turns
      omega
    have word : after < Numeral.wordLimit := by
      have limit : Numeral.signedLimit + Numeral.signedLimit = Numeral.wordLimit := rfl
      have less := Nat.le_mul_of_pos_left after pixels
      omega
    have bounce := Rule.fits_bounce word applied
    refine ⟨_, rfl, ?_, Remap.Machine.run_stepsAt bounce small⟩
    intro first steps
    refine ⟨_, Remap.Machine.run_bounce pixels small some first steps,
      by simp [Table.size, Remap.shifted], ?_⟩
    intro index inside
    exact Remap.index?_shifted small (Nat.mod_lt _ pixels) inside _

/-- Four pixels: the walk is seven steps long and stays at the last place for one of them. -/
theorem bounce_reflects_four
    : 1 ≤ (Node.ofCount 4).count
      ∧ (0.25 : Float).isFinite = true
      ∧ (List.range 9).map (fun step => bouncePlace 4 step) = [0, 1, 2, 3, 3, 2, 1, 0, 1]
      ∧ ∃ node table,
          Node.remapped (.bounce 0.25 1) (Node.ofCount 4) = .ok node
          ∧ node = .remap table (Node.ofCount 4)
          ∧ ∀ steps : List Int64,
              ∃ found,
                Machine.run (.bounce 0.25 1) 4 0 steps = .ok found
                ∧ ∀ index < 4,
                  found.index? index
                    = some ((index + bouncePlace 4 (steps.getLastD 0).toInt % 4) % 4) := by
  have size : (Node.ofCount 4).count = 4 := Array.size_replicate
  have finite : (0.25 : Float).isFinite = true := by
    decide +kernel
  have pixels : 1 ≤ (Node.ofCount 4).count := by
    omega
  obtain ⟨accepts, _, _, walks⟩ := bounce_reflects pixels (Nat.le_refl 1) finite
  obtain ⟨node, made⟩ := accepts.mpr (by rw [size]; decide)
  obtain ⟨table, built, told, _⟩ := walks node made
  refine ⟨pixels, finite, by decide, node, table, made, built, ?_⟩
  intro steps
  obtain ⟨found, run, _, leads⟩ := told 0 steps
  rw [size] at run leads
  exact ⟨found, run, leads⟩

end Node

end PixelTree
