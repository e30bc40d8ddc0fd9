import PixelTree.Proofs.Node.Painting
import PixelTree.Proofs.Remap.Machine

/-! Margins: the red pixels at the start of a strip, the visible ones and the green ones at its end
are all of its pixels, however wide the margins are. A machine of 64-bit words that checks every sum
and difference finds them.
-/

namespace PixelTree.Node

-----------------------------------------------------------------------------------------
-- Three parts
-----------------------------------------------------------------------------------------

variable {total margin : Nat}

/-- Margins that leave room are as wide as they should be. -/
theorem parts_of_narrow (small : total < Numeral.wordLimit) (narrow : 2 * margin ≤ total)
    : redCount total margin = margin ∧ greenCount total margin = margin
      ∧ visibleCount total margin = total - 2 * margin := by
  unfold greenCount redCount visibleCount
  omega

/-- Margins that meet part the strip among themselves. Their double may be held at the greatest
word, which no strip exceeds.
-/
theorem parts_of_wide (small : total < Numeral.wordLimit) (wide : total < 2 * margin)
    : redCount total margin = (total + 1) / 2 ∧ greenCount total margin = total / 2
      ∧ visibleCount total margin = 0 := by
  unfold greenCount redCount visibleCount
  omega

theorem parts_eq_total (small : total < Numeral.wordLimit)
    : redCount total margin + visibleCount total margin + greenCount total margin = total := by
  rcases Nat.lt_or_ge total (2 * margin) with wide | narrow
  · obtain ⟨red, green, visible⟩ := parts_of_wide small wide
    omega
  · obtain ⟨red, green, visible⟩ := parts_of_narrow small narrow
    omega

/-- Where anything is visible, the whole margin is in front of it. -/
theorem redCount_of_visible {index : Nat} (small : total < Numeral.wordLimit)
    (visible : index < visibleCount total margin)
    : redCount total margin = margin := by
  rcases Nat.lt_or_ge total (2 * margin) with wide | narrow
  · rw [(parts_of_wide small wide).2.2] at visible
    cases visible
  · exact (parts_of_narrow small narrow).1

-----------------------------------------------------------------------------------------
-- Painted margins
-----------------------------------------------------------------------------------------

theorem redCount_le (total margin : Nat) : redCount total margin ≤ total := by
  unfold redCount
  omega

theorem greenCount_le (total margin : Nat)
    : greenCount total margin ≤ total - redCount total margin :=
  Nat.min_le_right _ _

/-- The green pixels are the last ones. -/
theorem mem_greens {index : Nat} (inside : index < total)
    : index ∈ (List.range (greenCount total margin)).map (fun k => total - 1 - k)
      ↔ total - greenCount total margin ≤ index := by
  have few := greenCount_le total margin
  rw [List.mem_map]
  constructor
  · rintro ⟨k, green, rfl⟩
    have green := List.mem_range.mp green
    omega
  · intro last
    exact ⟨total - 1 - index, List.mem_range.mpr (by omega), by omega⟩

/-- With its margins painted, a strip shows red, what it showed, and green. -/
theorem Independent.get_paintMargins {inner : Node} (independent : inner.Independent)
    (margin : Nat) {index : Nat} (inside : index < inner.count)
    : (paintMargins margin inner).get index
      = if index < redCount inner.count margin then Color.pureRed
        else if index < inner.count - greenCount inner.count margin then inner.get index
        else Color.pureGreen := by
  have few := greenCount_le inner.count margin
  have repainted := repainted_setEach inner (List.range (redCount inner.count margin)) Color.pureRed
  have reddened := independent.get_setEach (List.range (redCount inner.count margin))
    Color.pureRed inside
  have inside' := inside
  rw [← count_eq_of_dark repainted.frame] at inside'
  simp only [List.mem_range] at reddened
  rw [paintMargins, (independent.of_repainted repainted).get_setEach _ _ inside', reddened]
  by_cases last : inner.count - greenCount inner.count margin ≤ index
  · rw [if_pos ((mem_greens inside).mpr last), if_neg (by omega), if_neg (by omega)]
  · have notGreen := mt (mem_greens inside).mp last
    rw [if_neg notGreen]
    split
    · rfl
    · rw [if_pos (by omega)]

-----------------------------------------------------------------------------------------
-- Margins on a machine
-----------------------------------------------------------------------------------------

namespace Machine

open Remap (Stop)
open Remap.Machine (word word_eq bind_ok mapM_of_forall)

/-- A difference that has to be a word. -/
def difference (a b : Nat) : Except Stop Nat :=
  if b ≤ a then return a - b else throw .overflow

/-- Half of a word, rounded up. -/
def upperHalf (n : Nat) : Except Stop Nat :=
  if 0 < n % 2 then word (n / 2 + 1) else return n / 2

/-- The inner index of a visible index. -/
def inward? (total margin index : Nat) : Except Stop (Option Nat) :=
  if index < visibleCount total margin then do return some (← word (index + margin))
  else return none

/-- The indices that are painted red, and those that are painted green. -/
def margins (total margin : Nat) : Except Stop (List Nat × List Nat) := do
  let half ← upperHalf total
  let rest ← difference total (min margin half)
  let greens ← (List.range (min margin rest)).mapM (fun k => do
    difference (← difference total 1) k)
  return (List.range (min margin half), greens)

theorem difference_eq {a b : Nat} (fits : b ≤ a) : difference a b = .ok (a - b) :=
  if_pos fits

theorem upperHalf_eq (small : total < Numeral.wordLimit)
    : upperHalf total = .ok ((total + 1) / 2) := by
  unfold upperHalf
  split
  · next odd => rw [word_eq (by omega), show (total + 1) / 2 = total / 2 + 1 by omega]
  · next even => rw [show (total + 1) / 2 = total / 2 by omega]; rfl

theorem inward?_eq (small : total < Numeral.wordLimit) (margin index : Nat)
    : inward? total margin index = .ok (Node.inward? total margin index) := by
  unfold inward? Node.inward?
  split
  · next visible =>
      have fits : index + margin < Numeral.wordLimit := by
        unfold visibleCount at visible
        omega
      rw [word_eq fits]
      rfl
  · rfl

theorem margins_eq (small : total < Numeral.wordLimit) (margin : Nat)
    : margins total margin
      = .ok (List.range (redCount total margin),
          (List.range (greenCount total margin)).map (fun k => total - 1 - k)) := by
  have few := greenCount_le total margin
  have each : ∀ k ∈ List.range (greenCount total margin),
      (do difference (← difference total 1) k) = .ok (total - 1 - k) := by
    intro k member
    have green := List.mem_range.mp member
    rw [difference_eq (by omega), bind_ok, difference_eq (by omega)]
  have red : min margin ((total + 1) / 2) = redCount total margin := rfl
  have green : min margin (total - redCount total margin) = greenCount total margin := rfl
  rw [margins, upperHalf_eq small, bind_ok, red, difference_eq (redCount_le total margin), bind_ok,
    green, mapM_of_forall each]
  rfl

end Machine

-----------------------------------------------------------------------------------------
-- Partition
-----------------------------------------------------------------------------------------

/-- The margins part a strip into red pixels, visible ones and green ones: what a flush paints
before it flushes the inner node, and where the visible pixels are.
-/
structure MarginsPart (margin : Nat) (inner painted : Node) (red green : Nat) : Prop where
  whole : red + (nav margin inner).count + green = inner.count
  narrow : 2 * margin ≤ inner.count → red = margin ∧ green = margin
  wide
    : inner.count < 2 * margin →
        (nav margin inner).count = 0 ∧ red = (inner.count + 1) / 2 ∧ green = inner.count / 2
  get_painted
    : ∀ index < inner.count,
        painted.get index
          = if index < red then Color.pureRed
            else if index < inner.count - green then inner.get index
            else Color.pureGreen
  repainted : Repainted inner painted
  flush_eq
    : ∀ {m : Type → Type} [Monad m] (around : Surroundings m),
        (nav margin inner).flush around
          = do
            let (inner, result) ← painted.flush around
            return (.nav margin inner, result)
  get_eq
    : ∀ index < (nav margin inner).count, (nav margin inner).get index = inner.get (red + index)
  set_eq
    : ∀ index < (nav margin inner).count,
        ∀ color,
          (nav margin inner).set index color = nav margin (inner.set (red + index) color)

/-- What a flush paints parts every strip that words can count, by cases on whether the margins
leave room.
-/
theorem Independent.marginsPart {inner : Node} (independent : inner.Independent)
    (small : inner.count < Numeral.wordLimit) (margin : Nat)
    : MarginsPart margin inner (paintMargins margin inner) (redCount inner.count margin)
        (greenCount inner.count margin) where
  whole := parts_eq_total small
  narrow := by
    intro narrow
    obtain ⟨red, green, _⟩ := parts_of_narrow small narrow
    exact ⟨red, green⟩
  wide := by
    intro wide
    obtain ⟨red, green, visible⟩ := parts_of_wide small wide
    exact ⟨visible, red, green⟩
  get_painted := fun _ inside => independent.get_paintMargins margin inside
  repainted := (repainted_setEach inner _ _).trans (repainted_setEach _ _ _)
  flush_eq := by
    intro m _ around
    rw [flush]
  get_eq := by
    intro index visible
    have visible : index < visibleCount inner.count margin := visible
    rw [get, if_pos visible, redCount_of_visible small visible, Nat.add_comm]
  set_eq := by
    intro index visible color
    have visible : index < visibleCount inner.count margin := visible
    rw [set, if_pos visible, redCount_of_visible small visible, Nat.add_comm]

/-- Margins of any width part every strip that words can count. The machine finds what to paint and
where the visible pixels are, and no sum or difference on its way is too large or too small.
-/
theorem margins_part_strip {inner : Node} (independent : inner.Independent)
    (small : inner.count < Numeral.wordLimit) (margin : Nat)
    : ∃ red green reds greens,
        Machine.margins inner.count margin = .ok (reds, greens)
        ∧ MarginsPart margin inner
            ((inner.setEach reds Color.pureRed).setEach greens Color.pureGreen) red green
        ∧ ∀ index,
            Machine.inward? inner.count margin index
              = .ok (if index < (nav margin inner).count then some (red + index) else none) := by
  refine ⟨_, _, _, _, Machine.margins_eq small margin, independent.marginsPart small margin, ?_⟩
  intro index
  rw [Machine.inward?_eq small, Node.inward?, count]
  split
  · next visible => rw [redCount_of_visible small visible, Nat.add_comm]
  · rfl

/-- Margins that are far too wide part five pixels of two devices: red takes the odd one. -/
theorem margins_part_five
    : let strips := ofMembers 0 [ofCount 3, ofCount 2]
      strips.Independent ∧ strips.count < Numeral.wordLimit
      ∧ ∃ painted,
          MarginsPart (Numeral.wordLimit - 1) strips painted 3 2
          ∧ painted.get 2 = Color.pureRed
          ∧ painted.get 3 = Color.pureGreen := by
  intro strips
  have sound : strips.Sound := ⟨rfl, trivial, trivial, trivial⟩
  have small : strips.count < Numeral.wordLimit := by decide
  obtain ⟨red, green, reds, greens, _, parts, _⟩ :=
    margins_part_strip sound.independent small (Numeral.wordLimit - 1)
  obtain ⟨_, half, rest⟩ := parts.wide (by decide)
  obtain rfl : red = 3 := half.trans (by decide)
  obtain rfl : green = 2 := rest.trans (by decide)
  have red := (parts.get_painted 2 (by decide)).trans (if_pos (by decide))
  have green := (parts.get_painted 3 (by decide)).trans
    ((if_neg (by decide)).trans (if_neg (by decide)))
  exact ⟨sound.independent, small, _, parts, red, green⟩

end PixelTree.Node
