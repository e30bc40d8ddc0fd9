import PixelTree.Chase
import PixelTree.Proofs.Color.Blending
import PixelTree.Proofs.Node.Painting
import PixelTree.Proofs.Remap.Onward

/-! The picture of a chase: its head is at the number of the frame, counted around the strip, its
tail behind it, and everything else is black, whatever was there before.
-/

namespace PixelTree.Chase

open Node (Repainted Independent)
open Remap (onward)

-----------------------------------------------------------------------------------------
-- Places of the tail
-----------------------------------------------------------------------------------------

variable {count frame distance : Nat}

theorem indexAt_add_count (count frame : Nat)
    : indexAt count (frame + count) = indexAt count frame := by
  funext distance
  rw [indexAt, indexAt, Nat.add_mod_right]

/-- Within a turn, the index behind the head is the one that many places back around the strip. -/
theorem indexAt_eq (near : distance < count)
    : indexAt count frame distance = onward count (-distance) frame := by
  have positive : 0 < count := by omega
  refine (Remap.toNat_emod_eq_of_dvd (Nat.mod_lt _ positive) ?_).symm
  have head : (count : Int) ∣ frame - (frame % count : Nat) := by
    rw [Int.natCast_mod]
    exact Int.dvd_self_sub_emod
  have wrapped : (count : Int) ∣ (frame % count + count - distance : Nat)
      - (indexAt count frame distance : Nat) := by
    rw [indexAt, Int.natCast_mod]
    exact Int.dvd_self_sub_emod
  have sum := Int.dvd_sub (Int.dvd_add head wrapped) (Int.dvd_refl count)
  have whole : (frame - (frame % count : Nat) : Int)
        + ((frame % count + count - distance : Nat) - (indexAt count frame distance : Nat)) - count
      = frame + -distance - (indexAt count frame distance : Nat) := by
    omega
  rwa [whole] at sum

-----------------------------------------------------------------------------------------
-- Colors of the tail
-----------------------------------------------------------------------------------------

variable {chase : Chase}

theorem glow_zero {tail : Nat} (fits : tail + 1 < Numeral.wordLimit) : glow tail 0 = 1 := by
  have nothing : (UInt64.ofNat 0).toFloat32 = 0 := rfl
  rw [glow, nothing]
  exact Single.one_sub_zero_div (Single.sizable_ofNat (Nat.succ_pos tail) fits)

/-- The head has the color of the chase. -/
theorem colorAt_zero (fits : chase.tail + 1 < Numeral.wordLimit)
    (signed : chase.color.NoNegativeZero)
    : chase.colorAt 0 = chase.color := by
  rw [colorAt, glow_zero fits, Color.blend_black_one signed]

-----------------------------------------------------------------------------------------
-- Pictures
-----------------------------------------------------------------------------------------

/-- The tail of a chase on a strip of `count` pixels, as long as the strip has room for it. -/
def length (chase : Chase) (count : Nat) : Nat :=
  min chase.tail (count - 1)

theorem mem_distances
    : distance ∈ chase.distances count ↔ distance ≤ chase.length count := by
  rw [distances, List.mem_range, Nat.lt_succ_iff, length]

/-- The tail does not reach around to the head. -/
theorem lt_of_le_length (positive : 0 < count)
    (near : distance ≤ chase.length count)
    : distance < count := by
  unfold length at near
  omega

theorem eq_of_onward_eq (positive : 0 < count) {other : Nat}
    (near : distance ≤ chase.length count) (near' : other ≤ chase.length count)
    (same : onward count (-distance) frame = onward count (-other) frame)
    : distance = other := by
  have inside := lt_of_le_length positive near
  have inside' := lt_of_le_length positive near'
  have equal := Remap.onward_inj (by omega) same
  omega

/-- A strip shows a frame of a chase: the head in its full color, behind it the tail, which fades to
black in equal steps, all of them at different places, and nothing else.
-/
structure Shows (chase : Chase) (count frame : Nat) (painted : Node) : Prop where
  inside : ∀ k : Nat, onward count (-k) frame < count
  head
    : chase.tail + 1 < Numeral.wordLimit → chase.color.NoNegativeZero →
        painted.get (frame % count) = chase.color
  tail
    : ∀ k : Nat, k ≤ chase.length count →
        painted.get (onward count (-k) frame)
          = Color.black.blend chase.color
              (1 - (UInt64.ofNat k).toFloat32 / (UInt64.ofNat (chase.tail + 1)).toFloat32)
  distinct
    : ∀ k l : Nat, k ≤ chase.length count → l ≤ chase.length count →
        onward count (-k) frame = onward count (-l) frame → k = l
  rest
    : ∀ index < count,
        (∀ k : Nat, k ≤ chase.length count → onward count (-k) frame ≠ index) →
        painted.get index = Color.black

/-- Nodes that show the same frame have the same colors. -/
theorem Shows.get_eq {painted other : Node}
    (shows : chase.Shows count frame painted) (shows' : chase.Shows count frame other)
    {index : Nat} (visible : index < count)
    : other.get index = painted.get index := by
  by_cases glows : ∃ k, k ≤ chase.length count ∧ onward count (-k) frame = index
  · obtain ⟨k, near, rfl⟩ := glows
    rw [shows.tail k near, shows'.tail k near]
  · have dark : ∀ k : Nat, k ≤ chase.length count → onward count (-k) frame ≠ index :=
      fun k near same => glows ⟨k, near, same⟩
    rw [shows.rest index visible dark, shows'.rest index visible dark]

-----------------------------------------------------------------------------------------
-- Painting
-----------------------------------------------------------------------------------------

variable {node : Node}

theorem paint_of_empty (empty : node.count = 0) (chase : Chase) (frame : Nat)
    : chase.paint node frame = node := by
  rw [paint, if_pos empty, Node.clear, Node.setAll, empty]
  rfl

theorem paint_of_pos (positive : 0 < node.count) (chase : Chase) (frame : Nat)
    : chase.paint node frame
      = node.clear.paintEach (indexAt node.count frame) chase.colorAt
          (chase.distances node.count) :=
  if_neg positive.ne'

theorem repainted_paint (chase : Chase) (node : Node) (frame : Nat)
    : Repainted node (chase.paint node frame) := by
  rcases Nat.eq_zero_or_pos node.count with empty | positive
  · rw [paint_of_empty empty]
    exact .refl node
  · rw [paint_of_pos positive]
    exact (Node.repainted_setEach node _ _).trans (Node.repainted_paintEach _ _ _ _)

/-- Independent pixels show what was painted: no two colors of the tail are painted on one pixel,
and where none is painted the strip was cleared.
-/
theorem shows_paint (independent : node.Independent) (positive : 0 < node.count) (chase : Chase)
    (frame : Nat)
    : chase.Shows node.count frame (chase.paint node frame) := by
  have repainted : Repainted node node.clear := Node.repainted_setEach node _ _
  have cleared := independent.of_repainted repainted
  have count_eq := Node.count_eq_of_dark repainted.frame
  have places : ∀ k ∈ chase.distances node.count,
      indexAt node.count frame k = onward node.count (-k) frame :=
    fun k member => indexAt_eq (lt_of_le_length positive (mem_distances.mp member))
  have glows : ∀ k : Nat, k ≤ chase.length node.count →
      (chase.paint node frame).get (onward node.count (-k) frame) = chase.colorAt k := by
    intro k near
    have member := mem_distances.mpr near
    rw [paint_of_pos positive]
    refine cleared.get_paintEach ?_ ⟨k, member, places k member⟩ ?_
    · rw [count_eq]
      exact Remap.onward_lt positive _ _
    · intro l member' same
      rw [places l member'] at same
      rw [eq_of_onward_eq positive (mem_distances.mp member') near same]
  refine ⟨fun k => Remap.onward_lt positive _ _, ?_, glows, fun k l => eq_of_onward_eq positive, ?_⟩
  · intro fits signed
    have head := glows 0 (Nat.zero_le _)
    rwa [Nat.cast_zero, neg_zero, Remap.onward_zero, colorAt_zero fits signed] at head
  · intro index visible dark
    rw [paint_of_pos positive]
    have elsewhere : ∀ k ∈ chase.distances node.count, indexAt node.count frame k ≠ index := by
      intro k member
      rw [places k member]
      exact dark k (mem_distances.mp member)
    rw [cleared.get_paintEach_of_ne elsewhere, Node.clear, Node.setAll,
      independent.get_setEach _ _ visible, if_pos (List.mem_range.mpr visible)]

/-- What was there before does not matter: nodes that differ in visible colors are the same once a
frame is painted on them.
-/
theorem paint_eq_of_repainted (independent : node.Independent) (positive : 0 < node.count)
    {shown : Node} (repainted : Repainted node shown) (chase : Chase) (frame : Nat)
    : chase.paint shown frame = chase.paint node frame := by
  have count_eq := Node.count_eq_of_dark repainted.frame
  have shows := shows_paint independent positive chase frame
  have shows' := shows_paint (independent.of_repainted repainted) (by rwa [count_eq]) chase frame
  rw [count_eq] at shows'
  have painted := repainted_paint chase node frame
  have painted' := repainted.trans (repainted_paint chase shown frame)
  refine (painted.symm.trans painted').eq_of_visible ?_
  intro index visible
  rw [Node.count_eq_of_dark painted.frame] at visible
  exact shows.get_eq shows' visible

/-- On independent pixels a frame shows the head and the tail of the chase and is black elsewhere.
Only visible colors change, and neither what was there before nor a whole turn makes a difference.
On a strip without pixels nothing happens.
-/
theorem paints_head_and_tail (independent : node.Independent) (chase : Chase) (frame : Nat)
    : (1 ≤ node.count →
        chase.Shows node.count frame (chase.paint node frame)
        ∧ Repainted node (chase.paint node frame)
        ∧ (∀ shown, Repainted node shown → chase.paint shown frame = chase.paint node frame)
        ∧ chase.paint node (frame + node.count) = chase.paint node frame)
      ∧ (node.count = 0 → chase.paint node frame = node) := by
  constructor
  · intro positive
    refine ⟨shows_paint independent positive chase frame, repainted_paint chase node frame, ?_, ?_⟩
    · intro shown repainted
      exact paint_eq_of_repainted independent positive repainted chase frame
    · rw [paint_of_pos positive, paint_of_pos positive, indexAt_add_count]
  · intro empty
    exact paint_of_empty empty chase frame

/-- A white chase with a tail of nine colors on five pixels of two devices: in the eighth frame the
head is at the third one, as white as it gets, and the tail ends right in front of it, four tenths
darker.
-/
theorem paints_head_and_tail_five
    : let strips := Node.ofMembers 0 [Node.ofCount 3, Node.ofCount 2]
      let chase : Chase := ⟨Color.white, 9⟩
      strips.Independent
      ∧ 1 ≤ strips.count
      ∧ chase.tail + 1 < Numeral.wordLimit
      ∧ chase.color.NoNegativeZero
      ∧ (chase.paint strips 7).get 2 = Color.white
      ∧ (chase.paint strips 7).get 3 = Color.black.blend Color.white (1 - 4 / 10)
      ∧ ((chase.paint strips 7).get 3).levels = [153, 153, 153]
      ∧ chase.paint (strips.set 0 Color.pureRed) 12 = chase.paint strips 7 := by
  intro strips chase
  have sound : strips.Sound := ⟨rfl, trivial, trivial, trivial⟩
  have independent := sound.independent
  have positive : 1 ≤ strips.count := by decide
  have fits : chase.tail + 1 < Numeral.wordLimit := by decide
  have signed : chase.color.NoNegativeZero := ⟨by decide, by decide, by decide⟩
  obtain ⟨shows, _, _, turn⟩ := (paints_head_and_tail independent chase 7).1 positive
  have before := (paints_head_and_tail independent chase 12).1 positive
  have head := shows.head fits signed
  have last := shows.tail 4 (by decide)
  have faded : 1 - (UInt64.ofNat 4).toFloat32 / (UInt64.ofNat (9 + 1)).toFloat32 = 1 - 4 / 10 := by
    decide +kernel
  rw [show 7 % strips.count = 2 by decide] at head
  rw [show onward strips.count (-(4 : Nat)) 7 = 3 by decide] at last
  rw [faded] at last
  refine ⟨independent, positive, fits, signed, head, last, ?_, ?_⟩
  · rw [last]
    decide +kernel
  · exact (before.2.2.1 _ (Node.repainted_set strips 0 Color.pureRed)).trans turn

end PixelTree.Chase
