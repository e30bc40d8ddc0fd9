import PixelTree.Kinet.Packet

/-! Packets that carry the colors of a strip, three bytes for each pixel. -/

namespace PixelTree.Kinet

def universeSize : Nat := 512

/-- A frame for one port of a supply of version 2. The length field holds the low sixteen bits
of the number of bytes that follow. -/
def portOut (port : UInt8) (dmxUniverse : UInt32) (rgb : Bytes) : Bytes :=
  packet .portOut
    (bytes32 dmxUniverse ++ [port, 0] ++ bytes16 0 ++ bytes16 (UInt16.ofNat rgb.length)
      ++ bytes16 0 ++ rgb)

/-- Tells a supply of version 2 to show the frames that its ports were sent. -/
def portOutSync : Bytes :=
  packet .portOutSync (bytes32 0)

/-- A frame for a supply of version 1. It always carries one whole universe: what is past the
end of it is left out, and what is missing is zero. -/
def dmxOut (dmxUniverse : UInt32) (rgb : Bytes) : Bytes :=
  let channels := rgb.take universeSize
  packet .dmxOut
    ([0, 0] ++ bytes16 0 ++ bytes32 dmxUniverse ++ [0] ++ channels
      ++ List.replicate (universeSize - channels.length) 0)

end PixelTree.Kinet
