import PixelTree.Proofs.Node.Requests

/-! Filters that only redirect: each visible index is led to an index of the inner node, which is
read and written there, and all else is left to the inner node. Rows of them redirect as well, and
two rows that lead to the same indices behave alike.
-/

namespace PixelTree.Node

-----------------------------------------------------------------------------------------
-- Redirections
-----------------------------------------------------------------------------------------

/-- The color at an index of a node, or black if there is no index. -/
def getAt (node : Node) (index : Option Nat) : Color :=
  index.elim Color.black node.get

/-- The node with another color at an index, if there is one. -/
def setAt (node : Node) (index : Option Nat) (color : Color) : Node :=
  index.elim node (node.set · color)

@[simp] theorem count_setAt (node : Node) (index : Option Nat) (color : Color)
    : (node.setAt index color).count = node.count := by
  cases index with
  | none => rfl
  | some index => exact count_set node index color

/-- Filters around a node of `count` pixels that only lead indices to others. -/
structure Redirects (wrap : Node → Node) (lead : Nat → Option Nat) (count : Nat) : Prop where
  count_eq : ∀ {inner}, inner.count = count → (wrap inner).count = count
  get_eq
    : ∀ {inner}, inner.count = count → ∀ index, (wrap inner).get index = inner.getAt (lead index)
  set_eq
    : ∀ {inner}, inner.count = count →
        ∀ index color, (wrap inner).set index color = wrap (inner.setAt (lead index) color)
  lastFault_eq : ∀ inner, (wrap inner).lastFault = inner.lastFault
  flush_run
    : ∀ {σ : Type} {around : Surroundings (StateM σ)} {inner inner' : Node}
        {result : Except DeviceFault Unit} {s s' : σ},
        (inner.flush around).run s = ((inner', result), s') →
        ((wrap inner).flush around).run s = ((wrap inner', result), s')

/-- The place that an index of a strip of `count` pixels leads to; there is none past the end. -/
def within (count : Nat) (place : Nat → Nat) (index : Nat) : Option Nat :=
  if index < count then some (place index) else none

theorem opposite?_eq_within (count : Nat) : opposite? count = within count (count - 1 - ·) :=
  rfl

/-- Places within a strip that lead on within the strip. -/
theorem within_bind {count : Nat} {first second : Nat → Nat}
    (inside : ∀ index < count, first index < count) (index : Nat)
    : (within count first index).bind (within count second)
      = within count (fun index => second (first index)) index := by
  unfold within
  by_cases visible : index < count
  · rw [if_pos visible, if_pos visible, Option.bind_some, if_pos (inside index visible)]
  · rw [if_neg visible, if_neg visible, Option.bind_none]

theorem within_congr {count : Nat} {first second : Nat → Nat}
    (same : ∀ index < count, first index = second index) (index : Nat)
    : within count first index = within count second index := by
  unfold within
  split
  · next visible => rw [same index visible]
  · rfl

/-- A node itself leads each index to the same one. -/
theorem redirects_id (count : Nat) : Redirects id (within count id) count where
  count_eq := id
  get_eq := by
    rintro inner rfl index
    unfold within
    split
    · rfl
    · next past => exact get_of_le (Nat.not_lt.mp past)
  set_eq := by
    rintro inner rfl index color
    unfold within
    split
    · rfl
    · next past => exact set_of_le (Nat.not_lt.mp past) color
  lastFault_eq := fun _ => rfl
  flush_run := id

theorem redirects_flip (count : Nat) : Redirects flip (opposite? count) count where
  count_eq := id
  get_eq := by
    rintro inner rfl index
    rw [get]
    cases opposite? inner.count index <;> rfl
  set_eq := by
    rintro inner rfl index color
    rw [set]
    cases opposite? inner.count index <;> rfl
  lastFault_eq := fun _ => rfl
  flush_run := by
    intro σ around inner inner' result s s' flushed
    rw [flush, StateT.run_bind, flushed]
    rfl

/-- A table that does not move redirects to the places in it. -/
theorem redirects_remap {table : Remap.Table} {count : Nat} (size : table.size = count)
    (still : table.rule.moves = false)
    : Redirects (remap table) table.index? count where
  count_eq := fun _ => size
  get_eq := by
    intro inner _ index
    rw [get]
    cases table.index? index <;> rfl
  set_eq := by
    intro inner _ index color
    rw [set]
    cases table.index? index <;> rfl
  lastFault_eq := fun _ => rfl
  flush_run := by
    intro σ around inner inner' result s s' flushed
    rw [flush, if_neg (by rw [still]; exact Bool.false_ne_true), StateT.run_bind, flushed]
    rfl

namespace Redirects

variable {wrap wrap' : Node → Node} {lead lead' : Nat → Option Nat} {count : Nat}

/-- Two redirections one after the other, the outer one first. -/
theorem comp (outer : Redirects wrap lead count) (inner : Redirects wrap' lead' count)
    : Redirects (fun node => wrap (wrap' node)) (fun index => (lead index).bind lead') count where
  count_eq := fun size => outer.count_eq (inner.count_eq size)
  get_eq := by
    intro node size index
    rw [outer.get_eq (inner.count_eq size)]
    cases lead index with
    | none => rfl
    | some position => exact inner.get_eq size position
  set_eq := by
    intro node size index color
    rw [outer.set_eq (inner.count_eq size)]
    cases lead index with
    | none => rfl
    | some position => exact congrArg wrap (inner.set_eq size position color)
  lastFault_eq := fun node => (outer.lastFault_eq _).trans (inner.lastFault_eq node)
  flush_run := fun flushed => outer.flush_run (inner.flush_run flushed)

/-- Two redirections around one node, which is not told apart by writes and flushes. -/
theorem bisimulation (first : Redirects wrap lead count) (second : Redirects wrap' lead count)
    {σ : Type} (around : Surroundings (StateM σ))
    : Bisimulation around (fun node other =>
        ∃ inner : Node, inner.count = count ∧ node = wrap inner ∧ other = wrap' inner) where
  count_eq := by
    rintro _ _ ⟨inner, size, rfl, rfl⟩
    rw [first.count_eq size, second.count_eq size]
  get_eq := by
    rintro _ _ ⟨inner, size, rfl, rfl⟩ index
    rw [first.get_eq size, second.get_eq size]
  lastFault_eq := by
    rintro _ _ ⟨inner, size, rfl, rfl⟩
    rw [first.lastFault_eq, second.lastFault_eq]
  set := by
    rintro _ _ ⟨inner, size, rfl, rfl⟩ index color
    refine ⟨inner.setAt (lead index) color, ?_, first.set_eq size index color,
      second.set_eq size index color⟩
    rw [count_setAt, size]
  flush := by
    rintro _ _ ⟨inner, size, rfl, rfl⟩ s
    rcases flushed : (inner.flush around).run s with ⟨⟨inner', result⟩, s'⟩
    have kept := (flushes_of_flush flushed).keeps.count_eq
    exact ⟨wrap inner', wrap' inner', result, s', first.flush_run flushed,
      second.flush_run flushed, inner', kept.trans size, rfl, rfl⟩

/-- Redirections that lead to the same indices behave alike. -/
theorem behavesAs (first : Redirects wrap lead count) (second : Redirects wrap' lead' count)
    (same : ∀ index, lead' index = lead index) {inner : Node} (size : inner.count = count)
    : BehavesAs (wrap inner) (wrap' inner) := by
  obtain rfl : lead' = lead := funext same
  exact behavesAs_of_bisimulation (first.bisimulation second) ⟨inner, size, rfl, rfl⟩

end Redirects

end PixelTree.Node
