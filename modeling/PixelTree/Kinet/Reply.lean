import PixelTree.Kinet.Request

/-! Packets that supplies answer with: who they are, and how many lights are on their ports.
The version and the sequence number of the header are ignored.
-/

namespace PixelTree.Kinet

def decodeHeader (expected : PacketType) (bytes : Bytes) : Except PacketError Bytes := do
  let (header, rest) ← Header.decode bytes
  if header.kind ≠ expected then
    throw (.unexpectedType expected header.kind)
  return rest

/-- What a supply says about itself. -/
structure DiscoverReply where
  ip : Net.Ipv4
  mac : Mac
  kinetVersion : UInt16
  serial : UInt32
  dmxUniverse : UInt32
  info : String
  name : String
deriving DecidableEq

/-- The bytes before the first zero, and the bytes behind it. -/
def untilZero (bytes : Bytes) : Bytes × Bytes :=
  (bytes.takeWhile (· != 0), (bytes.dropWhile (· != 0)).drop 1)

namespace DiscoverReply

/-- The number of bytes between the header and the texts. -/
def fixedSize : Nat := 20

/-- The bytes of a reply; each text is ended by a zero. -/
def encode (reply : DiscoverReply) : Bytes :=
  packet .discoverReply
    (reply.ip.octets ++ reply.mac.bytes.toList ++ bytes16 reply.kinetVersion
      ++ bytes32 reply.serial ++ bytes32 reply.dmxUniverse
      ++ Text.utf8 reply.info ++ [0] ++ Text.utf8 reply.name ++ [0])

/-- Reads what follows the header. The texts are the first two pieces between zeros; a text that
is missing is empty. -/
def decodeBody : Bytes → Except PacketError DiscoverReply
  | a :: b :: c :: d :: m₀ :: m₁ :: m₂ :: m₃ :: m₄ :: m₅ :: v₀ :: v₁
      :: s₀ :: s₁ :: s₂ :: s₃ :: u₀ :: u₁ :: u₂ :: u₃ :: texts =>
    let (info, rest) := untilZero texts
    let (name, _) := untilZero rest
    return {
      ip := ⟨a, b, c, d⟩
      mac := ⟨#v[m₀, m₁, m₂, m₃, m₄, m₅]⟩
      kinetVersion := word16 v₀ v₁
      serial := word32 s₀ s₁ s₂ s₃
      dmxUniverse := word32 u₀ u₁ u₂ u₃
      info := Text.decodeLenient info
      name := Text.decodeLenient name
    }
  | bytes => throw (.tooShort fixedSize bytes.length)

def decode (bytes : Bytes) : Except PacketError DiscoverReply := do
  decodeBody (← decodeHeader .discoverReply bytes)

end DiscoverReply

/-- The light counts of the four ports of a supply of version 1. -/
structure PortCounts where
  /-- The reply came in its other form. -/
  chromasic : Bool
  counts : Vector UInt16 4
deriving DecidableEq

namespace PortCounts

/-- The number of bytes behind the header. -/
def bodySize : Nat := 8

def kind (reply : PortCounts) : PacketType :=
  if reply.chromasic then .blinkScan1ChromasicReply else .blinkScan1Reply

def encode (reply : PortCounts) : Bytes :=
  packet reply.kind (reply.counts.toList.flatMap bytes16)

/-- Whether a packet type is a reply, and in which form. -/
def form? : PacketType → Option Bool
  | .blinkScan1Reply => some false
  | .blinkScan1ChromasicReply => some true
  | _ => none

def decodeBody (chromasic : Bool) : Bytes → Except PacketError PortCounts
  | a₀ :: a₁ :: b₀ :: b₁ :: c₀ :: c₁ :: d₀ :: d₁ :: _ =>
    return ⟨chromasic, #v[word16 a₀ a₁, word16 b₀ b₁, word16 c₀ c₁, word16 d₀ d₁]⟩
  | bytes => throw (.tooShort bodySize bytes.length)

def decode (bytes : Bytes) : Except PacketError PortCounts := do
  let (header, rest) ← Header.decode bytes
  match form? header.kind with
  | some chromasic => decodeBody chromasic rest
  | none => throw (.unexpectedType .blinkScan1Reply header.kind)

end PortCounts

/-- One output port of a supply. -/
structure Port where
  number : UInt8
  kind : UInt16
  lights : UInt16
deriving DecidableEq

/-- One datagram of an enumeration of version 2: the start, a port, or the end. -/
inductive ScanRecord where
  | start
  | data (port : Port)
  | finish
deriving DecidableEq

namespace ScanRecord

/-- The number of bytes behind the header. -/
def bodySize : Nat := 6

/-- The byte that tells the records apart. -/
def kindByte : ScanRecord → UInt8
  | .start => 0
  | .data _ => 1
  | .finish => 2

/-- The port fields of a record, zero where it has none. -/
def fields : ScanRecord → Port
  | .data port => port
  | _ => ⟨0, 0, 0⟩

def encode (record : ScanRecord) : Bytes :=
  packet .blinkScan2Reply
    ([record.kindByte, record.fields.number] ++ bytes16 record.fields.kind
      ++ bytes16 record.fields.lights)

def ofFields (kind : UInt8) (port : Port) : Except PacketError ScanRecord :=
  if kind = 0 then return .start
  else if kind = 1 then return .data port
  else if kind = 2 then return .finish
  else throw (.badRecord kind)

def decodeBody : Bytes → Except PacketError ScanRecord
  | kind :: number :: t₀ :: t₁ :: l₀ :: l₁ :: _ =>
    ofFields kind ⟨number, word16 t₀ t₁, word16 l₀ l₁⟩
  | bytes => throw (.tooShort bodySize bytes.length)

def decode (bytes : Bytes) : Except PacketError ScanRecord := do
  decodeBody (← decodeHeader .blinkScan2Reply bytes)

end ScanRecord

end PixelTree.Kinet
