import PixelTree.Numeral

/-! KiNET packets: little-endian words, packet types and the header that every packet starts
with.
-/

namespace PixelTree.Kinet

abbrev Bytes := List UInt8

-----------------------------------------------------------------------------------------
-- Words
-----------------------------------------------------------------------------------------

/-- A word of two bytes, the low one first. -/
def bytes16 (word : UInt16) : Bytes :=
  [word.toUInt8, (word >>> 8).toUInt8]

/-- A word of four bytes, the lowest first. -/
def bytes32 (word : UInt32) : Bytes :=
  [word.toUInt8, (word >>> 8).toUInt8, (word >>> 16).toUInt8, (word >>> 24).toUInt8]

def word16 (low high : UInt8) : UInt16 :=
  low.toUInt16 ||| (high.toUInt16 <<< 8)

def word32 (a b c d : UInt8) : UInt32 :=
  a.toUInt32 ||| (b.toUInt32 <<< 8) ||| (c.toUInt32 <<< 16) ||| (d.toUInt32 <<< 24)

-----------------------------------------------------------------------------------------
-- Packet types
-----------------------------------------------------------------------------------------

/-- What a packet is for. -/
inductive PacketType where
  | discover
  | discoverReply
  | setIp
  | setUniverse
  | setName
  | portInfo
  | portInfoReply
  /-- A frame for a supply of version 1. -/
  | dmxOut
  /-- A frame for one port of a supply of version 2. -/
  | portOut
  /-- Shows the frames that the ports of a supply were sent. -/
  | portOutSync
  | blinkScan1
  | blinkScan1Reply
  | blinkScan1ChromasicReply
  | blinkScan2
  | blinkScan2Reply
deriving DecidableEq

namespace PacketType

def all : List PacketType :=
  [ .discover, .discoverReply, .setIp, .setUniverse, .setName, .portInfo, .portInfoReply,
    .dmxOut, .portOut, .portOutSync, .blinkScan1, .blinkScan1Reply,
    .blinkScan1ChromasicReply, .blinkScan2, .blinkScan2Reply ]

def code : PacketType → UInt16
  | .discover => 0x0001
  | .discoverReply => 0x0002
  | .setIp => 0x0003
  | .setUniverse => 0x0005
  | .setName => 0x0006
  | .portInfo => 0x000A
  | .portInfoReply => 0x000B
  | .dmxOut => 0x0101
  | .portOut => 0x0108
  | .portOutSync => 0x0109
  | .blinkScan1 => 0x0201
  | .blinkScan1Reply => 0x0202
  | .blinkScan1ChromasicReply => 0x0206
  | .blinkScan2 => 0x0207
  | .blinkScan2Reply => 0x0208

def name : PacketType → String
  | .discover => "Discover"
  | .discoverReply => "DiscoverReply"
  | .setIp => "SetIp"
  | .setUniverse => "SetUniverse"
  | .setName => "SetName"
  | .portInfo => "PortInfo"
  | .portInfoReply => "PortInfoReply"
  | .dmxOut => "DmxOut"
  | .portOut => "PortOut"
  | .portOutSync => "PortOutSync"
  | .blinkScan1 => "BlinkScan1"
  | .blinkScan1Reply => "BlinkScan1Reply"
  | .blinkScan1ChromasicReply => "BlinkScan1ChromasicReply"
  | .blinkScan2 => "BlinkScan2"
  | .blinkScan2Reply => "BlinkScan2Reply"

def ofCode? (code : UInt16) : Option PacketType :=
  all.find? (fun kind => kind.code == code)

end PacketType

-----------------------------------------------------------------------------------------
-- Errors
-----------------------------------------------------------------------------------------

/-- Why bytes are not the packet that is asked for. -/
inductive PacketError where
  /-- The part that is read next needs more bytes than are left. -/
  | tooShort (expected actual : Nat)
  | badMagic (magic : UInt32)
  | unknownType (code : UInt16)
  | unexpectedType (expected actual : PacketType)
  | badRecord (kind : UInt8)
deriving DecidableEq

def PacketError.message : PacketError → String
  | .tooShort expected actual =>
    s!"Packet too short: expected {Numeral.decimal expected} bytes, got "
      ++ Numeral.decimal actual
  | .badMagic magic => "Bad magic: 0x" ++ Numeral.hexPadded 8 magic.toNat
  | .unknownType code => "Unknown packet type: 0x" ++ Numeral.hexPadded 4 code.toNat
  | .unexpectedType expected actual =>
    s!"Unexpected packet type: expected {expected.name}, got {actual.name}"
  | .badRecord kind => "Bad scan record kind: " ++ Numeral.decimal kind.toNat

/-- The type with a code, or the error that names the code. -/
def PacketType.ofCode (code : UInt16) : Except PacketError PacketType :=
  (PacketType.ofCode? code).elim (throw (.unknownType code)) pure

-----------------------------------------------------------------------------------------
-- Headers
-----------------------------------------------------------------------------------------

/-- The first word of every packet. -/
def magic : UInt32 := 0x4ADC0104

/-- The port that every supply listens on. -/
def udpPort : UInt16 := 6038

/-- The twelve bytes that every packet starts with, the first word apart. -/
structure Header where
  version : UInt16
  kind : PacketType
  sequence : UInt32
deriving DecidableEq

namespace Header

def size : Nat := 12

def outgoing (kind : PacketType) (sequence : UInt32) : Header :=
  ⟨1, kind, sequence⟩

def encode (header : Header) : Bytes :=
  bytes32 magic ++ bytes16 header.version ++ bytes16 header.kind.code
    ++ bytes32 header.sequence

/-- Reads a header and returns the bytes behind it. -/
def decode : Bytes → Except PacketError (Header × Bytes)
  | m₀ :: m₁ :: m₂ :: m₃ :: v₀ :: v₁ :: k₀ :: k₁ :: s₀ :: s₁ :: s₂ :: s₃ :: rest => do
    let found := word32 m₀ m₁ m₂ m₃
    if found ≠ magic then
      throw (.badMagic found)
    let kind ← PacketType.ofCode (word16 k₀ k₁)
    return (⟨word16 v₀ v₁, kind, word32 s₀ s₁ s₂ s₃⟩, rest)
  | bytes => throw (.tooShort size bytes.length)

end Header

def packet (kind : PacketType) (payload : Bytes) : Bytes :=
  (Header.outgoing kind 0).encode ++ payload

def require (expected : Nat) (bytes : Bytes) : Except PacketError Unit :=
  if bytes.length < expected then throw (.tooShort expected bytes.length) else return ()

end PixelTree.Kinet
