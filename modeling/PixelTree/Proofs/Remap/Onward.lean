import PixelTree.Proofs.Remap.Permutation

/-! Distances around a strip, which are counted in the integers: they lead forward or back, and past
either end to the other one.
-/

namespace PixelTree.Remap

variable {count index : Nat}

/-- The index at a distance from another one around a strip. A negative distance leads back. -/
def onward (count : Nat) (distance : Int) (index : Nat) : Nat :=
  ((index + distance) % (count : Int)).toNat

theorem onward_zero (count index : Nat) : onward count 0 index = index % count := by
  rw [onward, add_zero, ← Int.natCast_mod, Int.toNat_natCast]

theorem natCast_onward (positive : 0 < count) (distance : Int) (index : Nat)
    : (onward count distance index : Int) = (index + distance) % (count : Int) :=
  Int.toNat_of_nonneg (Int.emod_nonneg _ (by omega))

theorem onward_lt (positive : 0 < count) (distance : Int) (index : Nat)
    : onward count distance index < count := by
  have below := Int.emod_lt_of_pos (index + distance) (b := (count : Int)) (by omega)
  rw [← natCast_onward positive] at below
  omega

theorem dvd_sub_onward (positive : 0 < count) (distance : Int) (index : Nat)
    : (count : Int) ∣ index + distance - onward count distance index := by
  rw [natCast_onward positive]
  exact Int.dvd_self_sub_emod

/-- Distances that are less than a whole turn apart lead to different indices. -/
theorem onward_inj {first second : Int} (apart : (first - second).natAbs < count)
    (same : onward count first index = onward count second index)
    : first = second := by
  have positive : 0 < count := by omega
  have turns := Int.dvd_sub (dvd_sub_onward positive first index)
    (dvd_sub_onward positive second index)
  have difference : (index + first - onward count first index : Int)
      - (index + second - onward count second index) = first - second := by
    omega
  rw [difference] at turns
  have none := Int.eq_zero_of_dvd_of_natAbs_lt_natAbs turns (by rwa [Int.natAbs_natCast])
  omega

/-- Distances add up. -/
theorem onward_onward (positive : 0 < count) (first second : Int) (index : Nat)
    : onward count second (onward count first index) = onward count (first + second) index := by
  refine (toNat_emod_eq_of_dvd (onward_lt positive _ _) ?_).symm
  have outer := dvd_sub_onward positive second (onward count first index)
  have inner := dvd_sub_onward positive first index
  have sum := Int.dvd_add outer inner
  have both : (onward count first index : Int) + second
        - onward count second (onward count first index)
        + (index + first - onward count first index)
      = index + (first + second) - onward count second (onward count first index) := by
    omega
  rwa [both] at sum

/-- A distance from the opposite index leads to the opposite of where its counterpart leads. -/
theorem onward_opposite {distance back : Int} (inside : index < count)
    (turns : (count : Int) ∣ distance + back)
    : onward count distance (count - 1 - index) = count - 1 - onward count back index := by
  have positive : 0 < count := by omega
  have below := onward_lt positive back index
  refine toNat_emod_eq_of_dvd (by omega) ?_
  have difference := Int.dvd_sub turns (dvd_sub_onward positive back index)
  have both : distance + back - (index + back - onward count back index)
      = ((count - 1 - index : Nat) : Int) + distance
        - (count - 1 - onward count back index : Nat) := by
    omega
  rwa [both] at difference

end PixelTree.Remap
