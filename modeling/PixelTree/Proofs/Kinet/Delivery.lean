import PixelTree.Kinet.Output
import PixelTree.Proofs.Kinet.Header
import PixelTree.Proofs.Kinet.Written

/-! Which pixels of a string of lights its frames carry. A frame of version 2 is as long as it has
to be, and one of version 1 is always one universe, which cannot hold the colors of the longest
strings.
-/

namespace PixelTree

/-- The levels of a pixel are three consecutive ones among the levels of all pixels, by induction
over the pixels.
-/
theorem take_drop_flatMap_levels {colors : List Color} {index : Nat} {color : Color}
    (found : colors[index]? = some color)
    : ((colors.flatMap Color.levels).drop (3 * index)).take 3 = color.levels := by
  induction colors generalizing index with
  | nil => cases found
  | cons first rest ih =>
      rw [List.flatMap_cons]
      cases index with
      | zero =>
          obtain rfl := Option.some.inj found
          rfl
      | succ index =>
          rw [List.getElem?_cons_succ] at found
          rw [← ih found]
          rfl

theorem Strip.length_levels (strip : Strip) : strip.levels.length = 3 * strip.size := by
  rw [Strip.levels, List.length_flatMap]
  simp [Color.levels, Strip.toList, Strip.size, Nat.mul_comm]

namespace Kinet

/-- The number of pixels whose colors fit in one universe. -/
def universePixels : Nat := universeSize / 3

/-- The number of bytes that the header of a frame of version 2 says it has. -/
def namedLength (frame : Bytes) : Nat :=
  (word16 (frame.getD 20 0) (frame.getD 21 0)).toNat

namespace Output

variable {output : Output} {index : Nat}

/-- The colors of a frame as a supply takes them: a whole universe in version 1, and as many
bytes as the header names in version 2.
-/
def data (output : Output) : Bytes :=
  match output.address.protocol with
  | .v1 => (output.frame.drop 21).take universeSize
  | .v2 => (output.frame.drop 24).take (namedLength output.frame)

/-- The bytes at the place that a frame has for the color of a pixel. -/
def carried (output : Output) (index : Nat) : Bytes :=
  (output.data.drop (3 * index)).take 3

theorem frame_of_v1 (protocol : output.address.protocol = .v1)
    : output.frame = dmxOut output.address.dmxUniverse output.strip.levels := by
  simp only [frame, protocol]

theorem frame_of_v2 (protocol : output.address.protocol = .v2)
    : output.frame
      = portOut output.address.port output.address.dmxUniverse output.strip.levels := by
  simp only [frame, protocol]

/-- In version 2 the colors of a frame are all levels, as long as their number is named. -/
theorem data_of_v2 (protocol : output.address.protocol = .v2)
    (small : output.strip.levels.length ≤ 768)
    : output.data = output.strip.levels := by
  have colors : output.frame.drop 24 = output.strip.levels := by
    rw [frame_of_v2 protocol]
    rfl
  have named : namedLength output.frame = output.strip.levels.length := by
    have word : output.strip.levels.length < UInt16.size := Nat.lt_of_le_of_lt small (by decide)
    rw [← UInt16.toNat_ofNat_of_lt' word, ← word16_bytes (UInt16.ofNat _), frame_of_v2 protocol]
    rfl
  simp only [data, protocol]
  rw [colors, named, List.take_length]

/-- In version 1 the colors of a frame are the levels that fit in a universe, and zeros. -/
theorem data_of_v1 (protocol : output.address.protocol = .v1)
    : output.data
      = output.strip.levels.take universeSize
        ++ List.replicate (universeSize - (output.strip.levels.take universeSize).length) 0 := by
  have colors : output.frame.drop 21
      = output.strip.levels.take universeSize
        ++ List.replicate (universeSize - (output.strip.levels.take universeSize).length) 0 := by
    rw [frame_of_v1 protocol]
    rfl
  simp only [data, protocol]
  rw [colors, List.take_of_length_le]
  simp only [List.length_append, List.length_take, List.length_replicate]
  omega

/-- The levels of a strip hold those of each of its pixels in order. -/
theorem levels_get {strip : Strip} (inside : index < strip.size)
    : (strip.levels.drop (3 * index)).take 3 = (strip.get index).levels := by
  have pixel : strip.toList[index]? = some (strip.get index) := by
    have bound : index < strip.pixels.size := inside
    simp [Strip.toList, Strip.get, bound]
  exact take_drop_flatMap_levels pixel

/-- The levels of a pixel stand behind the 24 bytes in front of all levels. -/
theorem take_drop_portOut {strip : Strip} (inside : index < strip.size) (port : UInt8)
    (dmxUniverse : UInt32)
    : ((portOut port dmxUniverse strip.levels).drop (24 + 3 * index)).take 3
      = (strip.get index).levels := by
  rw [← List.drop_drop]
  exact levels_get inside

/-- In version 1 the place of a pixel is cut off or missing exactly if the pixel does not fit in
a universe.
-/
theorem carried_of_v1 (protocol : output.address.protocol = .v1)
    (inside : index < output.strip.size)
    : output.carried index = (output.strip.get index).levels ↔ index < universePixels := by
  have length := output.strip.length_levels
  have size : universeSize = 512 := rfl
  have fit : universePixels = 170 := rfl
  rw [carried, data_of_v1 protocol, ← levels_get inside]
  constructor
  · intro same
    have lengths := congrArg List.length same
    simp only [List.length_take, List.length_drop, List.length_append, List.length_replicate,
      size] at lengths
    omega
  · intro fits
    rw [List.drop_append_of_le_length (by rw [List.length_take]; omega),
      List.take_append_of_le_length (by rw [List.length_drop, List.length_take]; omega),
      List.drop_take, List.take_take]
    congr 1
    omega

/-- The frame of a string of lights with an address that was read, on any universe and with any
pixels, carries a pixel exactly if the supply is of version 2 or the pixel is one of the first
170. A frame of version 1 is one universe, however many pixels there are.
-/
theorem frame_carries_pixel_iff {input : String} {address : Address}
    (read : Address.parse input = .ok address) (dmxUniverse : UInt32)
    (placed : output.address = { address with dmxUniverse })
    (filled : output.strip.size = address.count) (inside : index < address.count)
    : output.carried index = (output.strip.get index).levels
      ↔ address.protocol = .v2 ∨ index < universePixels := by
  have most := (Address.readable_of_parse read).count_bounds.2
  have maximum : Address.maxCount = 256 := rfl
  have length := output.strip.length_levels
  rw [← filled] at inside
  cases protocol : address.protocol with
  | v1 =>
      rw [carried_of_v1 (by rw [placed, protocol]) inside]
      simp
  | v2 =>
      have version : output.address.protocol = .v2 := by rw [placed, protocol]
      have whole := data_of_v2 version (by omega)
      simp [carried, whole, levels_get inside]

/-- The last pixel of the longest string on an output is carried. -/
theorem frame_carries_last_pixel
    : ∃ (address : Address) (output : Output),
        Address.parse "10.0.0.1/1(256)" = .ok address
        ∧ output.address = { address with dmxUniverse := 7 }
        ∧ output.strip.size = address.count
        ∧ 255 < address.count
        ∧ output.carried 255 = (output.strip.get 255).levels := by
  have read : Address.parse "10.0.0.1/1(256)" = .ok (Address.output ⟨10, 0, 0, 1⟩ 1 256) := by
    decide +kernel
  let output : Output :=
    { Output.fresh { Address.output ⟨10, 0, 0, 1⟩ 1 256 with dmxUniverse := 7 } with
      strip := ⟨Array.replicate 256 Color.white⟩ }
  have filled : output.strip.size = 256 := Array.size_replicate
  have carries : output.carried 255 = (output.strip.get 255).levels :=
    (frame_carries_pixel_iff read 7 rfl filled (by decide)).mpr (Or.inl rfl)
  exact ⟨_, output, read, rfl, filled, by decide, carries⟩

/-- The last pixel of a string of 171 pixels that takes up a supply lacks its third level. -/
theorem frame_cuts_pixel_off
    : ∃ (address : Address) (output : Output),
        Address.parse "127.0.0.1(171)" = .ok address
        ∧ output.address = address
        ∧ output.strip.size = address.count
        ∧ 170 < address.count
        ∧ output.carried 170 ≠ (output.strip.get 170).levels := by
  have read : Address.parse "127.0.0.1(171)" = .ok (Address.whole ⟨127, 0, 0, 1⟩ 171) := by
    decide +kernel
  let output : Output :=
    { Output.fresh (Address.whole ⟨127, 0, 0, 1⟩ 171) with
      strip := ⟨Array.replicate 171 Color.white⟩ }
  have filled : output.strip.size = 171 := Array.size_replicate
  have cut : output.carried 170 ≠ (output.strip.get 170).levels := by decide +kernel
  exact ⟨_, output, read, rfl, filled, by decide, cut⟩

end Output

end Kinet

end PixelTree
