import PixelTree.Proofs.Kinet.Decoding
import PixelTree.Proofs.Kinet.Layout
import PixelTree.Proofs.Kinet.Replies

/-! Frames of version 2 as a supply takes them, which believes their number of colors. The number is
cut to sixteen bits and the colors are not, so more colors than it can count do not arrive.
-/

namespace PixelTree.Kinet

/-- What a frame of version 2 tells a supply. -/
structure PortFrame where
  dmxUniverse : UInt32
  port : UInt8
  rgb : Bytes
deriving DecidableEq

namespace Cursor

/-- Some bytes as they are. -/
def taken (count : Nat) : Cursor Bytes := fun bytes =>
  if bytes.length < count then throw .pastEnd else return (bytes.take count, bytes.drop count)

/-- What follows the header of a frame of version 2: as many colors as are named. -/
def portFields : Cursor PortFrame := do
  let dmxUniverse ← word32
  let port ← byte
  let _ ← repeated byte 3
  let length ← word16
  let _ ← word16
  let rgb ← taken length.toNat
  return { dmxUniverse, port, rgb }

def portFrame : Cursor PortFrame := do
  expect .portOut
  portFields

theorem taken_run {count : Nat} {bytes : Bytes} (enough : count ≤ bytes.length)
    : (taken count).run bytes = .ok (bytes.take count, bytes.drop count) :=
  if_neg (Nat.not_lt.mpr enough)

/-- A supply takes from a frame the colors up to the number that is named, and leaves the others. -/
theorem portFrame_run (port : UInt8) (dmxUniverse : UInt32) (rgb : Bytes)
    : portFrame.run (portOut port dmxUniverse rgb)
      = .ok
        (⟨dmxUniverse, port, rgb.take (rgb.length % 65536)⟩, rgb.drop (rgb.length % 65536)) := by
  let length := UInt16.ofNat rgb.length
  let payload := bytes32 dmxUniverse ++ [port, 0] ++ bytes16 0 ++ bytes16 length ++ bytes16 0 ++ rgb
  have named : length.toNat = rgb.length % 65536 := UInt16.toNat_ofNat'
  have enough : length.toNat ≤ rgb.length := named ▸ Nat.mod_le ..
  have header : (expect .portOut).run (portOut port dmxUniverse rgb) = .ok ((), payload) := by
    rw [expect_run, portOut, decodeHeader_packet_self]
    rfl
  -- There are enough bytes for each field in front of the colors, whatever these are.
  have fields : portFields.run payload
      = (taken (Kinet.word16 length.toUInt8 (length >>> 8).toUInt8).toNat).run rgb >>= fun found =>
        .ok
          (⟨Kinet.word32 dmxUniverse.toUInt8 (dmxUniverse >>> 8).toUInt8
            (dmxUniverse >>> 16).toUInt8 (dmxUniverse >>> 24).toUInt8, port, found.1⟩, found.2) :=
    rfl
  rw [portFrame, StateT.run_bind, header, ok_bind, fields, word16_bytes, word32_bytes,
    taken_run enough, named, ok_bind]

/-- A supply takes all colors of a frame, and nothing else is in it, exactly if sixteen bits can
count them.
-/
theorem portFrame_run_eq_iff (port : UInt8) (dmxUniverse : UInt32) (rgb : Bytes)
    : portFrame.run (portOut port dmxUniverse rgb) = .ok (⟨dmxUniverse, port, rgb⟩, [])
      ↔ rgb.length < 65536 := by
  rw [portFrame_run]
  constructor
  · intro whole
    have left := congrArg Prod.snd (Except.ok.inj whole)
    have past := List.drop_eq_nil_iff.mp left
    have below := Nat.mod_lt rgb.length (y := 65536) (by decide)
    omega
  · intro few
    rw [Nat.mod_eq_of_lt few, List.take_length, List.drop_length]

end Cursor

namespace Output

/-- The levels of a string of lights are taken from its frame of version 2 exactly if there are at
most 21845 pixels.
-/
theorem portFrame_frame_iff {output : Output} (protocol : output.address.protocol = .v2)
    (filled : output.strip.size = output.address.count)
    : Cursor.portFrame.run output.frame
        = .ok
          (⟨output.address.dmxUniverse, output.address.port, output.strip.levels⟩, [])
      ↔ output.address.count ≤ 21845 := by
  rw [frame_of_v2 protocol, Cursor.portFrame_run_eq_iff, Strip.length_levels, filled]
  omega

end Output

/-- A frame of version 2 names the number of its colors in sixteen bits, and a supply takes so many
of them. So it takes all, and nothing else is in the frame, exactly if they are fewer than 65536.
For the frames of a string of lights that is to say that it has at most 21845 pixels.
-/
theorem portFrame_whole_iff (port : UInt8) (dmxUniverse : UInt32) (rgb : Bytes)
    : littleEndian (slice (portOut port dmxUniverse rgb) 20 2) = rgb.length % 65536
      ∧ Cursor.portFrame.run (portOut port dmxUniverse rgb)
        = .ok
          (⟨dmxUniverse, port, rgb.take (rgb.length % 65536)⟩, rgb.drop (rgb.length % 65536))
      ∧ (Cursor.portFrame.run (portOut port dmxUniverse rgb) = .ok (⟨dmxUniverse, port, rgb⟩, [])
        ↔ rgb.length < 65536)
      ∧ ∀ output : Output,
          output.address.protocol = .v2 → output.address.port = port →
          output.address.dmxUniverse = dmxUniverse → output.strip.levels = rgb →
          output.strip.size = output.address.count →
            (Cursor.portFrame.run output.frame = .ok (⟨dmxUniverse, port, rgb⟩, [])
              ↔ output.address.count ≤ 21845) := by
  refine ⟨littleEndian_length_portOut port dmxUniverse rgb,
    Cursor.portFrame_run port dmxUniverse rgb, Cursor.portFrame_run_eq_iff port dmxUniverse rgb, ?_⟩
  rintro output protocol rfl rfl rfl filled
  exact Output.portFrame_frame_iff protocol filled

/-- The longest string of lights whose frame is taken whole. -/
theorem portFrame_whole_of_longest
    : ∃ output : Output,
        output.address = Address.output ⟨127, 0, 0, 1⟩ 1 21845
        ∧ output.strip.size = output.address.count
        ∧ Cursor.portFrame.run output.frame = .ok (⟨0, 1, output.strip.levels⟩, []) := by
  let output : Output :=
    { Output.fresh (Address.output ⟨127, 0, 0, 1⟩ 1 21845) with
      strip := ⟨Array.replicate 21845 Color.white⟩ }
  have filled : output.strip.size = 21845 := Array.size_replicate
  have taken := (portFrame_whole_iff 1 0 output.strip.levels).2.2.2 output rfl rfl rfl rfl filled
  exact ⟨output, rfl, filled, taken.mpr (Nat.le_refl 21845)⟩

/-- Of the 65538 levels of one pixel more a supply takes two. -/
theorem portFrame_wraps_around
    : Cursor.portFrame.run (Output.fresh (Address.output ⟨127, 0, 0, 1⟩ 1 21846)).frame
        = .ok
          (⟨0, 1, (Strip.dark 21846).levels.take 2⟩, (Strip.dark 21846).levels.drop 2)
      ∧ ((Strip.dark 21846).levels.drop 2).length = 65536
      ∧ Cursor.portFrame.run (Output.fresh (Address.output ⟨127, 0, 0, 1⟩ 1 21846)).frame
        ≠ .ok (⟨0, 1, (Strip.dark 21846).levels⟩, []) := by
  have size : (Strip.dark 21846).size = 21846 := Array.size_replicate
  have length : (Strip.dark 21846).levels.length = 65538 := by rw [Strip.length_levels, size]
  have received := Cursor.portFrame_run 1 0 (Strip.dark 21846).levels
  rw [length] at received
  refine ⟨received, by rw [List.length_drop, length], ?_⟩
  intro whole
  have few := (Output.portFrame_frame_iff rfl size).mp whole
  exact absurd few (by decide)

end PixelTree.Kinet
