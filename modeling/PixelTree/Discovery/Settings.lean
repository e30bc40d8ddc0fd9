import PixelTree.Discovery.Supply

/-! How supplies are looked for. -/

namespace PixelTree.Discovery

/-- Settings of a scan. -/
structure Settings where
  /-- Where to ask; every interface's broadcast address where it is not given. -/
  broadcast : Option Net.Ipv4
  port : UInt16
  /-- How many milliseconds to wait for answers. -/
  timeout : Nat
  /-- Whether each supply is asked for its ports. -/
  enumerate : Bool
  /-- The number of pixels where a supply reports none. -/
  defaultCount : Nat
deriving DecidableEq

namespace Settings

/-- The settings where nothing else is asked for. -/
def standard : Settings where
  broadcast := none
  port := Kinet.udpPort
  timeout := 250
  enumerate := true
  defaultCount := Kinet.Address.defaultCount

def toJson (settings : Settings) : Json String :=
  .object
    [ ("broadcast", (settings.broadcast.map (fun ip => Json.text ip.display)).getD .null),
      ("port", Supply.ofNatural settings.port.toNat),
      ("timeout_ms", Supply.ofNatural settings.timeout),
      ("enumerate", .boolean settings.enumerate),
      ("default_count", Supply.ofNatural settings.defaultCount) ]

/-- Reads a field, which stands for a default where it is not given. -/
def fieldOr {α β : Type} (default : α) (read? : β → Option α) : Option β → Option α
  | some found => read? found
  | none => some default

/-- Reads an address that may be absent. -/
def broadcastOfJson? : Json.Found → Option (Option Net.Ipv4)
  | .null => some none
  | json => do return some (← Net.Ipv4.parse? (← json.toText?))

/-- Reads settings; a field that is not given has its standard value. -/
def ofJson? (json : Json.Found) : Option Settings := do
  match ← json.fields? ["broadcast", "port", "timeout_ms", "enumerate", "default_count"] with
  | [broadcast, port, timeout, enumerate, defaultCount] =>
    let port ← fieldOr standard.port.toNat (Json.toNatural? UInt16.size) port
    return {
      broadcast := ← fieldOr standard.broadcast broadcastOfJson? broadcast
      port := UInt16.ofNat port
      timeout := ← fieldOr standard.timeout (Json.toNatural? Numeral.wordLimit) timeout
      enumerate := ← fieldOr standard.enumerate Json.toBoolean? enumerate
      defaultCount :=
        ← fieldOr standard.defaultCount (Json.toNatural? Numeral.wordLimit) defaultCount
    }
  | _ => none

def parse? (s : String) : Option Settings := do
  ofJson? (← Json.parse? s)

end Settings

end PixelTree.Discovery
