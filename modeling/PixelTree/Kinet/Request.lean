import PixelTree.Kinet.Packet
import PixelTree.Net.Ipv4
import PixelTree.Text.Utf8

/-! Packets that ask a supply for something or change how it is set up. -/

namespace PixelTree.Kinet

def request (kind : PacketType) (sequence : UInt32) : Bytes :=
  (Header.outgoing kind sequence).encode

def setUniverse (dmxUniverse : UInt32) : Bytes :=
  packet .setUniverse (bytes32 dmxUniverse)

/-- The most bytes of a name that a supply is sent. -/
def maxNameBytes : Nat := 31

/-- Gives a supply its name: as many bytes of it as fit, filled up with zeros so that at least
one zero ends it. -/
def setName (name : String) : Bytes :=
  let bytes := (Text.utf8 name).take maxNameBytes
  packet .setName (bytes ++ List.replicate (maxNameBytes + 1 - bytes.length) 0)

/-- A hardware address of six bytes. -/
structure Mac where
  bytes : Vector UInt8 6
deriving DecidableEq

def Mac.display (mac : Mac) : String :=
  ":".intercalate (mac.bytes.toList.map (fun b => String.ofList (Numeral.hexByte b)))

/-- Gives the supply with a hardware address its network address. -/
def setIp (mac : Mac) (ip : Net.Ipv4) : Bytes :=
  packet .setIp (mac.bytes.toList ++ ip.octets)

end PixelTree.Kinet
