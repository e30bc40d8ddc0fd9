import PixelTree.Json.Reader
import PixelTree.Kinet.Address
import PixelTree.Kinet.Reply

/-! Supplies that answered, the strings of lights that they drive, and the descriptor that puts
all of these one after the other.
-/

namespace PixelTree.Discovery

/-- A supply that answered. -/
structure Supply where
  ip : Net.Ipv4
  mac : String
  kinetVersion : UInt16
  serial : UInt32
  dmxUniverse : UInt32
  name : String
  info : String
  /-- Empty until the supply was asked for them. -/
  ports : List Kinet.Port
deriving DecidableEq

namespace Supply

/-- The supply of a reply, its ports not yet known. -/
def ofReply (reply : Kinet.DiscoverReply) : Supply where
  ip := reply.ip
  mac := reply.mac.display
  kinetVersion := reply.kinetVersion
  serial := reply.serial
  dmxUniverse := reply.dmxUniverse
  name := reply.name
  info := reply.info
  ports := []

/-- The protocol that a supply speaks: every version past the first counts as the second. -/
def protocol (supply : Supply) : Kinet.Protocol :=
  if supply.kinetVersion ≤ 1 then .v1 else .v2

def held (count : Nat) : Nat :=
  max 1 (min count Kinet.Address.maxCount)

def totalLights (supply : Supply) : Nat :=
  supply.ports.foldr (fun port total => port.lights.toNat + total) 0

def addressOf? (supply : Supply) (port : Kinet.Port) : Option Kinet.Address :=
  if 0 < port.lights ∧ 0 < port.number then
    some (Kinet.Address.output supply.ip port.number (held port.lights.toNat))
  else none

/-- The strings of lights of a supply: a single one for the whole supply in version 1, one for
each port with lights in version 2. Without any lights a single one of `defaultCount` pixels
stands in. -/
def addresses (defaultCount : Nat) (supply : Supply) : List Kinet.Address :=
  match supply.protocol with
  | .v1 =>
    let count :=
      if supply.totalLights = 0 then held defaultCount else held supply.totalLights
    [Kinet.Address.whole supply.ip count]
  | .v2 =>
    let found := supply.ports.filterMap supply.addressOf?
    if found.isEmpty then [Kinet.Address.output supply.ip 1 (held defaultCount)] else found

/-- The descriptor of the strings of lights of all supplies, if there are any. -/
def descriptor? (defaultCount : Nat) (supplies : List Supply) : Option String :=
  let stages :=
    (supplies.flatMap (addresses defaultCount)).map (fun a => "ck:" ++ a.display)
  match stages with
  | [] => none
  | [stage] => some stage
  | stages => some ("[" ++ ", ".intercalate stages ++ "]")

def ofNatural (n : Nat) : Json String :=
  .number (Numeral.decimal n)

def portToJson (port : Kinet.Port) : Json String :=
  .object
    [ ("port", ofNatural port.number.toNat),
      ("port_type", ofNatural port.kind.toNat),
      ("lights", ofNatural port.lights.toNat) ]

def toJson (supply : Supply) : Json String :=
  .object
    [ ("ip", .text supply.ip.display),
      ("mac", .text supply.mac),
      ("kinet_version", ofNatural supply.kinetVersion.toNat),
      ("serial", ofNatural supply.serial.toNat),
      ("universe", ofNatural supply.dmxUniverse.toNat),
      ("name", .text supply.name),
      ("info", .text supply.info),
      ("ports", .array (supply.ports.map portToJson)) ]

def portOfJson? (json : Json.Found) : Option Kinet.Port := do
  match ← json.fields? ["port", "port_type", "lights"] with
  | [some number, some kind, some lights] =>
    let number ← number.toNatural? UInt8.size
    let kind ← kind.toNatural? UInt16.size
    let lights ← lights.toNatural? UInt16.size
    return ⟨UInt8.ofNat number, UInt16.ofNat kind, UInt16.ofNat lights⟩
  | _ => none

/-- Reads a supply, all of whose fields have to be given. -/
def ofJson? (json : Json.Found) : Option Supply := do
  let names :=
    ["ip", "mac", "kinet_version", "serial", "universe", "name", "info", "ports"]
  match ← json.fields? names with
  | [some ip, some mac, some version, some serial, some dmxUniverse, some name, some info,
      some ports] =>
    let version ← version.toNatural? UInt16.size
    let serial ← serial.toNatural? UInt32.size
    let dmxUniverse ← dmxUniverse.toNatural? UInt32.size
    return {
      ip := ← Net.Ipv4.parse? (← ip.toText?)
      mac := ← mac.toText?
      kinetVersion := UInt16.ofNat version
      serial := UInt32.ofNat serial
      dmxUniverse := UInt32.ofNat dmxUniverse
      name := ← name.toText?
      info := ← info.toText?
      ports := ← ports.toList? portOfJson?
    }
  | _ => none

end Supply

def supplies? (s : String) : Option (List Supply) := do
  (← Json.parse? s).toList? Supply.ofJson?

end PixelTree.Discovery
