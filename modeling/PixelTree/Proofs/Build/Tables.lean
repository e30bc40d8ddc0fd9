import PixelTree.Proofs.Build.Fresh
import PixelTree.Proofs.Node.Sound
import PixelTree.Proofs.Remap.Machine

/-! The tables of the filters of the standard catalog. Whatever arguments a filter was made with and
whatever time it is, its table leads each visible pixel to an inner pixel of its own, and nothing
that a machine does to find the table overflows or divides by zero.
-/

namespace PixelTree

open Remap (Table Machine.run Machine.around)

/-- A table is a permutation of the indices of a strip: every visible index leads to an inner index
of its own, and no inner index is out of reach.
-/
structure Remap.Table.Permutes (table : Table) (count : Nat) : Prop where
  perm : table.indices.toList.Perm (List.range count)
  leads_inside
    : ∀ index, index < count → ∃ position, position < count ∧ table.index? index = some position
  own
    : ∀ {index other position},
        table.index? index = some position → table.index? other = some position → index = other
  reaches
    : ∀ position, position < count → ∃ index, index < count ∧ table.index? index = some position

theorem Remap.Table.Renumbers.permutes {table : Table} {count : Nat}
    (renumbers : table.Renumbers count)
    : table.Permutes count where
  perm := renumbers
  leads_inside := by
    intro index inside
    obtain ⟨position, found⟩ := Option.isSome_iff_exists.mp
      ((renumbers.leads.isSome_iff index).mpr inside)
    exact ⟨position, renumbers.leads.lt found, found⟩
  own := renumbers.leads.inj
  reaches := by
    intro position inside
    obtain ⟨index, found⟩ := renumbers.exists_index? inside
    exact ⟨index, (renumbers.leads.isSome_iff index).mp (by rw [found]; rfl), found⟩

namespace Catalog

open Descriptor (Stage)

/-- The table of a filter of the standard catalog over a strip that fits in memory is a permutation
at all times. A machine finds it without being stopped, and whatever numbers of steps the machine is
told, it finds permutations. No offset that a filter is made with stops it either.
-/
theorem table_permutes {stage : Stage} {inner held : Node} {table : Table}
    {supply supply' : SeedSupply}
    (applied : standard.applyFilter stage inner supply = .ok (.remap table held, supply'))
    (small : inner.count < Numeral.signedLimit)
    : held = inner
      ∧ (∀ times : List Nat,
          (times.foldl Table.atTime table).Permutes inner.count
          ∧ Machine.run table.rule inner.count (table.rule.stepsAt inner.count 0)
              (times.map (table.rule.stepsAt inner.count))
            = .ok (times.foldl Table.atTime table))
      ∧ (∀ (first : Int64) (steps : List Int64),
          ∃ found, Machine.run table.rule inner.count first steps = .ok found
            ∧ found.Permutes inner.count)
      ∧ ∀ distance : Int64,
          Machine.around (max inner.count 1) distance
            = .ok (distance.toInt % ((max inner.count 1 : Nat) : Int)).toNat := by
  obtain ⟨written, wraps⟩ := exists_wraps_of_applyFilter applied
  cases wraps with
  | @remap rule _ fits =>
      rw [Remap.Table.rule_initial]
      refine ⟨rfl, ?_, ?_, ?_⟩
      · intro times
        refine ⟨?_, Remap.Machine.run_stepsAt fits small times⟩
        rw [Remap.Machine.foldl_atTime]
        exact (Remap.Machine.renumbers_foldl small.le (fits.renumbers small.le) _).permutes
      · intro first steps
        obtain ⟨found, done, renumbers⟩ := Remap.Machine.exists_run fits small first steps
        exact ⟨found, done, renumbers.permutes⟩
      · intro distance
        have one : 1 < Numeral.signedLimit := by decide
        exact Remap.Machine.around_eq (by omega) (by omega) distance

/-- A bounce that moves backwards over three pixels leads to all of them at all times. -/
theorem table_permutes_of_bounce
    : ∃ table supply',
        standard.applyFilter ⟨"bounce", ["-0.5", "2"]⟩ (Node.ofCount 3) ⟨fun _ => 7⟩
          = .ok (.remap table (Node.ofCount 3), supply')
        ∧ ∀ times : List Nat, (times.foldl Table.atTime table).Permutes 3 := by
  have facts : (standard.applyFilter ⟨"bounce", ["-0.5", "2"]⟩ (Node.ofCount 3) ⟨fun _ => 7⟩).map
      (fun made =>
        match made.1 with
        | .remap table _ => some table.size
        | _ => none)
      = .ok (some 3) := by
    decide +kernel
  obtain ⟨⟨node, supply'⟩, applied, facts⟩ := exists_of_map_eq_ok facts
  cases node with
  | remap table held =>
      have size : (Node.ofCount 3).count = 3 := Array.size_replicate
      obtain ⟨rfl, permutes, _⟩ := table_permutes applied (by rw [size]; decide)
      rw [size] at permutes
      exact ⟨table, supply', applied, fun times => (permutes times).1⟩
  | _ => cases facts

end Catalog

end PixelTree
