import Mathlib.Data.List.Sort
import PixelTree.Proofs.Node.Redirecting
import PixelTree.Proofs.Remap.Permutation

/-! A table of a stride sorts the indices of its strip by their remainders, and leaves indices with
the same remainder in order. Where the stride divides the strip, this reads a grid by columns
instead of rows, and doing it again with the other side of the grid undoes it.
-/

namespace PixelTree

namespace Remap

variable {count stride rows columns : Nat}

-----------------------------------------------------------------------------------------
-- Order
-----------------------------------------------------------------------------------------

/-- An index is before another one by its remainder, or by itself if the remainders are the same. -/
def Precedes (stride index other : Nat) : Prop :=
  index % stride < other % stride ∨ index % stride = other % stride ∧ index < other

theorem Precedes.asymm {index other : Nat} (before : Precedes stride index other)
    : ¬ Precedes stride other index := by
  unfold Precedes at before ⊢
  omega

/-- Runs are in order, and so are the indices of a run. -/
theorem pairwise_interleaved (positive : 0 < stride)
    : (interleaved count stride).Pairwise (Precedes stride) := by
  refine List.pairwise_flatMap.mpr ⟨?_, ?_⟩
  · intro start member
    have below := List.mem_range.mp member
    refine List.pairwise_map.mpr (List.pairwise_lt_range.imp ?_)
    intro first second before
    refine .inr ⟨by rw [Nat.add_mul_mod_self_right, Nat.add_mul_mod_self_right], ?_⟩
    have less := Nat.mul_lt_mul_of_pos_right before positive
    omega
  · refine List.pairwise_lt_range.imp_of_mem ?_
    intro first second inFirst inSecond before index inRun other inRun'
    have below := List.mem_range.mp inFirst
    have below' := List.mem_range.mp inSecond
    have remainder := ((mem_strided (by omega)).mp inRun).2
    have remainder' := ((mem_strided (by omega)).mp inRun').2
    exact .inl (by rwa [remainder, remainder'])

/-- The order and the indices decide a list. -/
theorem eq_interleaved (positive : 0 < stride) {indices : List Nat}
    (perm : indices.Perm (List.range count)) (sorted : indices.Pairwise (Precedes stride))
    : indices = interleaved count stride :=
  List.Perm.eq_of_pairwise (fun _ _ _ _ before behind => absurd behind before.asymm) sorted
    (pairwise_interleaved positive) (perm.trans (perm_interleaved positive).symm)

/-- Two elements that are different are in one order only. -/
theorem not_sublist_of_nodup {α : Type} {items : List α} {a b : α} (nodup : items.Nodup)
    (order : [a, b].Sublist items)
    : ¬ [b, a].Sublist items := by
  induction items with
  | nil => cases order
  | cons head rest ih =>
      obtain ⟨fresh, nodup⟩ := List.nodup_cons.mp nodup
      intro reverse
      rcases List.sublist_cons_iff.mp order with later | ⟨tail, same, later⟩
      · rcases List.sublist_cons_iff.mp reverse with later' | ⟨tail', same', later'⟩
        · exact ih nodup later later'
        · obtain ⟨rfl, rfl⟩ := List.cons.inj same'
          exact fresh (later.subset (by simp))
      · obtain ⟨rfl, rfl⟩ := List.cons.inj same
        rcases List.sublist_cons_iff.mp reverse with later' | ⟨tail', same', later'⟩
        · exact fresh (later'.subset (by simp))
        · obtain ⟨rfl, rfl⟩ := List.cons.inj same'
          exact fresh (later.subset (by simp))

theorem pair_sublist_range {index other : Nat} (before : index < other) (inside : other < count)
    : [index, other].Sublist (List.range count) := by
  have places : ∀ place ∈ [index, other], place ∈ List.range count := by
    simp only [List.mem_cons, List.not_mem_nil, or_false, List.mem_range]
    omega
  have nodup : [index, other].Nodup := by
    simp [before.ne]
  exact List.sublist_of_subperm_of_pairwise (nodup.subperm places)
    (List.pairwise_pair.mpr before.le) (List.pairwise_le_range)

/-- A table of a stride is a stable sort by remainders. -/
theorem interleaved_eq_mergeSort (positive : 0 < stride)
    : interleaved count stride
      = (List.range count).mergeSort (fun index other => index % stride ≤ other % stride) := by
  have trans (a b c : Nat) (first : decide (a % stride ≤ b % stride) = true)
      (second : decide (b % stride ≤ c % stride) = true)
      : decide (a % stride ≤ c % stride) = true := by
    rw [decide_eq_true_eq] at first second ⊢
    omega
  have total (a b : Nat)
      : (decide (a % stride ≤ b % stride) || decide (b % stride ≤ a % stride)) = true := by
    rw [Bool.or_eq_true, decide_eq_true_eq, decide_eq_true_eq]
    omega
  have perm := List.mergeSort_perm (List.range count)
    (fun index other => index % stride ≤ other % stride)
  have nodup := perm.nodup_iff.mpr List.nodup_range
  refine (eq_interleaved positive perm (List.pairwise_iff_forall_sublist.mpr ?_)).symm
  intro index other order
  have sorted := List.pairwise_iff_forall_sublist.mp
    (List.pairwise_mergeSort trans total (List.range count)) order
  rw [decide_eq_true_eq] at sorted
  rcases Nat.lt_or_eq_of_le sorted with less | same
  · exact .inl less
  · refine .inr ⟨same, ?_⟩
    -- Were the indices in the other order, a stable sort would have kept it.
    by_contra late
    have different : index ≠ other := by
      rintro rfl
      simpa using nodup.sublist order
    have inside := List.mem_range.mp (perm.subset (order.subset List.mem_cons_self))
    have reverse := pair_sublist_range (show other < index by omega) inside
    have kept := List.pair_sublist_mergeSort trans total (by simp [same]) reverse
    exact not_sublist_of_nodup nodup order kept

/-- Strides that leave everything in place. -/
theorem interleaved_eq_range (positive : 0 < stride) (still : count ≤ stride ∨ stride = 1)
    : interleaved count stride = List.range count := by
  refine (eq_interleaved positive (.refl _) (List.pairwise_lt_range.imp_of_mem ?_)).symm
  intro index other inside inside' before
  have below := List.mem_range.mp inside
  have below' := List.mem_range.mp inside'
  rcases still with short | rfl
  · left
    rwa [Nat.mod_eq_of_lt (by omega), Nat.mod_eq_of_lt (by omega)]
  · exact .inr ⟨by rw [Nat.mod_one, Nat.mod_one], before⟩

-----------------------------------------------------------------------------------------
-- Grids
-----------------------------------------------------------------------------------------

/-- Where the index of a grid that is read by columns, each as long as there are rows, stands in the
grid as it is: `rows` indices belong to each of its columns.
-/
def transposed (rows columns index : Nat) : Nat :=
  index / columns + index % columns * rows

theorem div_columns_lt {index : Nat} (inside : index < rows * columns) : index / columns < rows :=
  Nat.div_lt_of_lt_mul (by rwa [Nat.mul_comm])

theorem transposed_lt {index : Nat} (inside : index < rows * columns)
    : transposed rows columns index < rows * columns := by
  have start := div_columns_lt inside
  have positive : 0 < columns := Nat.pos_of_ne_zero (by rintro rfl; omega)
  have most : (index % columns + 1) * rows ≤ columns * rows :=
    Nat.mul_le_mul_right rows (Nat.mod_lt index positive)
  rw [Nat.add_mul, Nat.one_mul, Nat.mul_comm columns] at most
  unfold transposed
  omega

theorem transposed_mod {index : Nat} (inside : index < rows * columns)
    : transposed rows columns index % rows = index / columns := by
  rw [transposed, Nat.add_mul_mod_self_right, Nat.mod_eq_of_lt (div_columns_lt inside)]

theorem transposed_div {index : Nat} (inside : index < rows * columns)
    : transposed rows columns index / rows = index % columns := by
  have start := div_columns_lt inside
  rw [transposed, Nat.add_mul_div_right _ _ (Nat.zero_lt_of_lt start), Nat.div_eq_of_lt start,
    Nat.zero_add]

/-- Reading a grid by columns, and what was read by its own columns, changes nothing. -/
theorem transposed_transposed {index : Nat} (inside : index < rows * columns)
    : transposed columns rows (transposed rows columns index) = index := by
  rw [transposed, transposed_div inside, transposed_mod inside, Nat.mod_add_div']

/-- A stride that divides the strip reads a grid by columns. -/
theorem interleaved_mul (positive : 0 < rows)
    : interleaved (rows * columns) rows
      = (List.range (rows * columns)).map (transposed rows columns) := by
  have sorted
      : ((List.range (rows * columns)).map (transposed rows columns)).Pairwise (Precedes rows) := by
    refine List.pairwise_map.mpr (List.pairwise_lt_range.imp_of_mem ?_)
    intro index other inside inside' before
    have inside := List.mem_range.mp inside
    have inside' := List.mem_range.mp inside'
    rw [Precedes, transposed_mod inside, transposed_mod inside']
    rcases Nat.lt_or_eq_of_le (Nat.div_le_div_right before.le) with less | same
    · exact .inl less
    · have parts := Nat.mod_add_div' index columns
      have parts' := Nat.mod_add_div' other columns
      have less : index % columns < other % columns := by
        rw [← same] at parts'
        omega
      refine .inr ⟨same, ?_⟩
      have steps := Nat.mul_lt_mul_of_pos_right less positive
      rw [transposed, transposed, same]
      omega
  have perm : ((List.range (rows * columns)).map (transposed rows columns)).Perm
      (List.range (rows * columns)) := by
    refine perm_map_range (fun index inside => transposed_lt inside) ?_
    intro index inside other inside' same
    rw [← transposed_transposed inside, same, transposed_transposed inside']
  exact (eq_interleaved positive perm sorted).symm

theorem Table.size_skip (positive : 0 < stride) (count : Nat)
    : (Table.initial (.skip stride) count).size = count :=
  Table.Renumbers.size_eq (perm_interleaved positive)

theorem Table.index?_skip (positive : 0 < rows) (columns : Nat)
    : (Table.initial (.skip rows) (rows * columns)).index?
      = Node.within (rows * columns) (transposed rows columns) := by
  funext index
  rw [index?, initial, interleaved_mul positive, List.getElem?_toArray, List.getElem?_map,
    Node.within]
  split
  · next inside => rw [List.getElem?_range inside, Option.map_some]
  · next past =>
      rw [List.getElem?_eq_none (by rw [List.length_range]; omega), Option.map_none]

end Remap

namespace Node

open Remap (Table transposed)

variable {rows columns : Nat}

theorem redirects_skip (positive : 0 < rows) (columns : Nat)
    : Redirects (remap (Table.initial (.skip rows) (rows * columns)))
        (within (rows * columns) (transposed rows columns)) (rows * columns) := by
  have redirects := redirects_remap (Table.size_skip positive (rows * columns)) rfl
  rwa [Table.index?_skip positive columns] at redirects

/-- One side of a grid leads back from where the other side leads. -/
theorem within_transposed (rows columns index : Nat)
    : (within (rows * columns) (transposed rows columns) index).bind
        (within (rows * columns) (transposed columns rows))
      = within (rows * columns) id index := by
  rw [within_bind (fun _ inside => Remap.transposed_lt inside)]
  exact within_congr (fun _ inside => Remap.transposed_transposed inside) index

/-- A filter of a stride sorts the indices by their remainders and keeps those with the same
remainder in order. It changes nothing if the stride is one or goes past the end, and if two strides
are the sides of a grid that is the strip, the filter of one undoes that of the other.
-/
theorem skip_sorts {inner : Node} {stride : Nat} (positive : 1 ≤ stride)
    : ∃ table,
        Node.remapped (.skip stride) inner = .ok (.remap table inner)
        ∧ table.indices.toList
          = (List.range inner.count).mergeSort (fun index other => index % stride ≤ other % stride)
        ∧ table.indices.toList.Perm (List.range inner.count)
        ∧ table.indices.toList.Pairwise (fun index other =>
            index % stride < other % stride ∨ index % stride = other % stride ∧ index < other)
        ∧ (inner.count ≤ stride ∨ stride = 1 →
            table.indices.toList = List.range inner.count)
        ∧ ∀ other, 1 ≤ other → stride * other = inner.count →
            ∃ behind,
              Node.remapped (.skip other) inner = .ok (.remap behind inner)
              ∧ Node.remapped (.skip stride) (.remap behind inner)
                = .ok (.remap table (.remap behind inner))
              ∧ (∀ index < inner.count, (table.index? index).bind behind.index? = some index)
              ∧ BehavesAs (.remap table (.remap behind inner)) inner := by
  have made {stride : Nat} (positive : 1 ≤ stride) (node : Node)
      : Node.remapped (.skip stride) node
        = .ok (.remap (Table.initial (.skip stride) node.count) node) :=
    remapped_eq_ok.mpr ⟨if_neg (Nat.ne_of_gt positive), rfl⟩
  refine ⟨_, made positive inner, Remap.interleaved_eq_mergeSort positive,
    Remap.perm_interleaved positive, Remap.pairwise_interleaved positive,
    Remap.interleaved_eq_range positive, ?_⟩
  intro other some grid
  have outside := made positive (.remap (Table.initial (.skip other) inner.count) inner)
  rw [count, Table.size_skip some] at outside
  have first := redirects_skip positive other
  have second := redirects_skip some stride
  have leads := Table.index?_skip positive other
  have leads' := Table.index?_skip some stride
  have back := within_transposed stride other
  rw [Nat.mul_comm other stride] at second leads'
  rw [grid] at first second leads leads' back
  refine ⟨_, made some inner, outside, ?_, ?_⟩
  · intro index inside
    rw [leads, leads', back, within, if_pos inside, id]
  · exact (first.comp second).behavesAs (redirects_id inner.count) (fun index => (back index).symm)
      rfl

/-- A stride of two reads six pixels by three columns, and one of three reads them back. -/
theorem skip_sorts_six
    : 1 ≤ 2
      ∧ ∃ table behind,
          Node.remapped (.skip 2) (Node.ofCount 6) = .ok (.remap table (Node.ofCount 6))
          ∧ table.indices.toList = [0, 2, 4, 1, 3, 5]
          ∧ Node.remapped (.skip 3) (Node.ofCount 6) = .ok (.remap behind (Node.ofCount 6))
          ∧ BehavesAs (.remap table (.remap behind (Node.ofCount 6))) (Node.ofCount 6) := by
  have size : (Node.ofCount 6).count = 6 := Array.size_replicate
  obtain ⟨table, made, sorted, _, _, _, grids⟩ := @skip_sorts (Node.ofCount 6) 2 (by decide)
  obtain ⟨behind, made', _, _, alike⟩ := grids 3 (by decide) (by rw [size])
  rw [size] at sorted
  refine ⟨by decide, table, behind, made, ?_, made', alike⟩
  rw [sorted, ← Remap.interleaved_eq_mergeSort (by decide)]
  decide

end Node

end PixelTree
