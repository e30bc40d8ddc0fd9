import PixelTree.Proofs.Kinet.Delivery

/-! What stands where in a frame. A frame of version 2 is as long as its colors ask for and says how
many bytes they are; a frame of version 1 is one universe of channels, in which the colors of a long
string end at the last channel and those of a short one are followed by zeros.
-/

namespace PixelTree

/-- A level of a strip. Every pixel has three, its red one first. -/
def Strip.levelAt (strip : Strip) (index : Nat) : UInt8 :=
  (strip.get (index / 3)).levels.getD (index % 3) 0

/-- The levels of a strip are those of its pixels, and there are no others. -/
theorem Strip.getElem?_levels (strip : Strip) (index : Nat)
    : strip.levels[index]?
      = if index < 3 * strip.size then some (strip.levelAt index) else none := by
  have length := strip.length_levels
  split
  · next inside =>
      have pixel : index / 3 < strip.size := by omega
      have below : index % 3 < 3 := Nat.mod_lt index (by decide)
      have place : 3 * (index / 3) + index % 3 = index := Nat.div_add_mod index 3
      have three : (strip.get (index / 3)).levels.length = 3 := rfl
      have triple := Kinet.Output.levels_get pixel
      have level := congrArg (fun levels => levels[index % 3]?) triple
      simp only [List.getElem?_take_of_lt below, List.getElem?_drop, place] at level
      rw [level, levelAt, List.getD_eq_getElem?_getD, List.getElem?_eq_getElem (by omega)]
      rfl
  · next outside => exact List.getElem?_eq_none (by omega)

namespace Kinet

-----------------------------------------------------------------------------------------
-- Places
-----------------------------------------------------------------------------------------

/-- The bytes from a place on, as many as asked for. -/
def slice (bytes : Bytes) (start count : Nat) : Bytes :=
  (bytes.drop start).take count

/-- The number that bytes spell, the lowest one first. -/
def littleEndian (bytes : Bytes) : Nat :=
  Nat.ofDigits 256 (bytes.map UInt8.toNat)

theorem littleEndian_bytes16 (word : UInt16) : littleEndian (bytes16 word) = word.toNat := by
  have value := toNat_word16 word.toUInt8 (word >>> 8).toUInt8
  rw [word16_bytes] at value
  simpa [littleEndian, bytes16, Nat.ofDigits] using value.symm

theorem littleEndian_bytes32 (word : UInt32) : littleEndian (bytes32 word) = word.toNat := by
  have value := toNat_word32 word.toUInt8 (word >>> 8).toUInt8 (word >>> 16).toUInt8
    (word >>> 24).toUInt8
  rw [word32_bytes] at value
  simpa [littleEndian, bytes32, Nat.ofDigits] using value.symm

/-- A packet starts with the header of its type. -/
theorem decode_packet (kind : PacketType) (payload : Bytes)
    : Header.decode (packet kind payload)
      = .ok (⟨1, kind, 0⟩, (packet kind payload).drop 12) :=
  Header.decode_encode (.outgoing kind 0) payload

theorem length_packet (kind : PacketType) (payload : Bytes)
    : (packet kind payload).length = 12 + payload.length := by
  simp [packet, Header.encode, bytes16, bytes32]
  omega

-----------------------------------------------------------------------------------------
-- Frames
-----------------------------------------------------------------------------------------

theorem length_portOut (port : UInt8) (dmxUniverse : UInt32) (rgb : Bytes)
    : (portOut port dmxUniverse rgb).length = 24 + rgb.length := by
  rw [portOut, length_packet]
  simp [bytes16, bytes32]
  omega

/-- The number of colors that a frame of version 2 names is cut to sixteen bits. -/
theorem littleEndian_length_portOut (port : UInt8) (dmxUniverse : UInt32) (rgb : Bytes)
    : littleEndian (slice (portOut port dmxUniverse rgb) 20 2) = rgb.length % 65536 := by
  have field : slice (portOut port dmxUniverse rgb) 20 2 = bytes16 (UInt16.ofNat rgb.length) := rfl
  rw [field, littleEndian_bytes16, UInt16.toNat_ofNat']

theorem length_dmxOut (dmxUniverse : UInt32) (rgb : Bytes)
    : (dmxOut dmxUniverse rgb).length = 533 := by
  rw [dmxOut, length_packet]
  simp [bytes16, bytes32, universeSize]

/-- Every channel of a frame of version 1 has its color, or zero if there is none. -/
theorem getElem?_dmxOut {index : Nat} (inside : index < 512) (dmxUniverse : UInt32) (rgb : Bytes)
    : (dmxOut dmxUniverse rgb)[21 + index]? = some (rgb.getD index 0) := by
  have channels : (dmxOut dmxUniverse rgb).drop 21
      = rgb.take 512 ++ List.replicate (512 - (rgb.take 512).length) 0 := rfl
  have length : (rgb.take 512).length = min 512 rgb.length := List.length_take
  rw [← List.getElem?_drop, channels]
  rcases Nat.lt_or_ge index rgb.length with there | past
  · rw [List.getElem?_append_left (by omega), List.getElem?_take_of_lt inside,
      List.getD_eq_getElem?_getD, List.getElem?_eq_getElem there]
    rfl
  · rw [List.getElem?_append_right (by omega), List.getElem?_replicate, if_pos (by omega),
      List.getD_eq_getElem?_getD, List.getElem?_eq_none past]
    rfl

/-- The frame of version 2 for the pixels of a strip. -/
structure IsPortFrame (frame : Bytes) (address : Address) (strip : Strip) : Prop where
  size : frame.length = 24 + 3 * address.count
  header : Header.decode frame = .ok (⟨1, .portOut, 0⟩, frame.drop 12)
  dmxUniverse : littleEndian (slice frame 12 4) = address.dmxUniverse.toNat
  port : slice frame 16 1 = [address.port]
  unused : slice frame 17 3 = [0, 0, 0]
  named : littleEndian (slice frame 20 2) = 3 * address.count
  startCode : slice frame 22 2 = [0, 0]
  colors : ∀ index < address.count,
    slice frame (24 + 3 * index) 3 = (strip.get index).levels

/-- The frame of version 1 for the pixels of a strip. -/
structure IsUniverseFrame (frame : Bytes) (address : Address) (strip : Strip) : Prop where
  size : frame.length = 533
  header : Header.decode frame = .ok (⟨1, .dmxOut, 0⟩, frame.drop 12)
  unused : slice frame 12 4 = [0, 0, 0, 0]
  dmxUniverse : littleEndian (slice frame 16 4) = address.dmxUniverse.toNat
  startCode : slice frame 20 1 = [0]
  channels : ∀ index < 512,
    frame[21 + index]?
    = some (if index < 3 * address.count then strip.levelAt index else 0)

/-- The packet that shows the frames of a supply: a header of its type, and four bytes that are not
used.
-/
structure IsSyncPacket (packet : Bytes) : Prop where
  size : packet.length = 16
  magic : littleEndian (slice packet 0 4) = 0x4ADC0104
  version : littleEndian (slice packet 4 2) = 1
  type : littleEndian (slice packet 6 2) = 0x0109
  sequence : littleEndian (slice packet 8 4) = 0
  unused : slice packet 12 4 = [0, 0, 0, 0]

theorem isSyncPacket_portOutSync : IsSyncPacket portOutSync where
  size := length_packet .portOutSync (bytes32 0)
  magic := littleEndian_bytes32 Kinet.magic
  version := littleEndian_bytes16 1
  type := littleEndian_bytes16 PacketType.portOutSync.code
  sequence := littleEndian_bytes32 0
  unused := rfl

namespace Output

variable {output : Output}

/-- In version 2 the frame is that of its pixels if their levels can be counted in sixteen bits. -/
theorem isPortFrame_frame (protocol : output.address.protocol = .v2)
    (filled : output.strip.size = output.address.count) (few : 3 * output.address.count < 65536)
    : IsPortFrame output.frame output.address output.strip := by
  have length : output.strip.levels.length = 3 * output.address.count := by
    rw [Strip.length_levels, filled]
  rw [frame_of_v2 protocol]
  exact {
    size := by rw [length_portOut, length]
    header := decode_packet .portOut _
    dmxUniverse := littleEndian_bytes32 output.address.dmxUniverse
    port := rfl
    unused := rfl
    named := by rw [littleEndian_length_portOut, length, Nat.mod_eq_of_lt few]
    startCode := rfl
    colors := by
      intro index inside
      exact take_drop_portOut (filled ▸ inside) _ _
  }

/-- In version 1 the frame is that of its pixels, however many they are. -/
theorem isUniverseFrame_frame (protocol : output.address.protocol = .v1)
    (filled : output.strip.size = output.address.count)
    : IsUniverseFrame output.frame output.address output.strip := by
  rw [frame_of_v1 protocol]
  exact {
    size := length_dmxOut _ _
    header := decode_packet .dmxOut _
    unused := rfl
    dmxUniverse := littleEndian_bytes32 output.address.dmxUniverse
    startCode := rfl
    channels := by
      intro index inside
      rw [getElem?_dmxOut inside, List.getD_eq_getElem?_getD, Strip.getElem?_levels, filled]
      split
      · rfl
      · rfl
  }

/-- The frame of a string of lights with an address that was read, on any universe and with any
pixels, has every byte in its place.
-/
theorem frame_layout {input : String} {address : Address}
    (read : Address.parse input = .ok address) (dmxUniverse : UInt32)
    (placed : output.address = { address with dmxUniverse })
    (filled : output.strip.size = address.count)
    : match address.protocol with
      | .v1 => IsUniverseFrame output.frame { address with dmxUniverse } output.strip
      | .v2 => IsPortFrame output.frame { address with dmxUniverse } output.strip := by
  have most := (Address.readable_of_parse read).count_bounds.2
  have maximum : Address.maxCount = 256 := rfl
  have full : output.strip.size = output.address.count := by rw [filled, placed]
  rw [← placed]
  cases protocol : address.protocol with
  | v1 => exact isUniverseFrame_frame (by rw [placed, protocol]) full
  | v2 => exact isPortFrame_frame (by rw [placed, protocol]) full (by rw [← full, filled]; omega)

/-- The longest string that takes up a supply ends inside a pixel. -/
theorem frame_layout_of_longest
    : ∃ (address : Address) (output : Output),
        Address.parse "10.0.0.1(256)" = .ok address
        ∧ output.address = { address with dmxUniverse := 7 }
        ∧ output.strip.size = address.count
        ∧ IsUniverseFrame output.frame { address with dmxUniverse := 7 } output.strip := by
  have read : Address.parse "10.0.0.1(256)" = .ok (Address.whole ⟨10, 0, 0, 1⟩ 256) := by
    decide +kernel
  let output : Output :=
    { Output.fresh { Address.whole ⟨10, 0, 0, 1⟩ 256 with dmxUniverse := 7 } with
      strip := ⟨Array.replicate 256 Color.white⟩ }
  have filled : output.strip.size = 256 := Array.size_replicate
  exact ⟨_, output, read, rfl, filled, frame_layout read 7 rfl filled⟩

end Output

end Kinet

end PixelTree
