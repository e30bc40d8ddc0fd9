import PixelTree.Discovery.Answers
import PixelTree.Discovery.Settings
import PixelTree.Surroundings

/-! Looking for supplies: a question goes out to every target, and what arrives in the window after
it is taken for answers. Each supply found is then asked for its ports.
-/

namespace PixelTree.Discovery

/-- A question, where it goes, and how long answers are waited for. -/
structure Question where
  datagram : List UInt8
  targets : List Net.Endpoint
  /-- Whether the targets are broadcast addresses. -/
  broadcast : Bool
  /-- Milliseconds. -/
  window : Nat
  /-- Whether an arrival makes waiting for others pointless. -/
  last : Arrival → Bool

/-- What becomes of a question: the targets that it could not be sent to, and what arrived. -/
structure Outcome where
  refused : List (Net.Endpoint × SystemFault)
  arrivals : List Arrival

/-- The asking side of the network. -/
structure Airwaves (m : Type → Type) where
  /-- The broadcast addresses of the interfaces. -/
  interfaces : m (List Net.Ipv4)
  /-- Asks from a fresh socket, if there is one. -/
  ask : Question → m (Except SystemFault Outcome)

/-- Why supplies could not be asked. -/
inductive ScanFault where
  | noDiscoverySocket (fault : SystemFault)
  | noEnumerationSocket (fault : SystemFault)
  | notSent (target : Net.Endpoint) (fault : SystemFault)
deriving DecidableEq

namespace ScanFault

def message : ScanFault → String
  | .noDiscoverySocket _ => "Failed to bind discovery socket"
  | .noEnumerationSocket _ => "Failed to bind enumeration socket"
  | .notSent target _ =>
    s!"Failed to send BlinkScan to {target.ip.display}:"
      ++ Numeral.decimal target.port.toNat

/-- The fault behind it. -/
def cause : ScanFault → SystemFault
  | .noDiscoverySocket fault => fault
  | .noEnumerationSocket fault => fault
  | .notSent _ fault => fault

end ScanFault

variable {m : Type → Type} [Monad m]

/-- Asks who is there. Targets that cannot be reached are passed over. -/
def discover (air : Airwaves m) (settings : Settings)
    : m (Except ScanFault (List Kinet.DiscoverReply)) := do
  let targets ←
    match settings.broadcast with
    | some ip => pure [ip]
    | none => air.interfaces
  let question : Question := {
    datagram := Kinet.request .discover 0
    targets := targets.map (fun ip => ⟨ip, settings.port⟩)
    broadcast := true
    window := settings.timeout
    last := fun _ => false
  }
  match ← air.ask question with
  | .error fault => return .error (.noDiscoverySocket fault)
  | .ok outcome => return .ok (replies outcome.arrivals)

def enumerationRequest : Kinet.Protocol → Kinet.Bytes
  | .v1 => Kinet.request .blinkScan1 0
  | .v2 => Kinet.request .blinkScan2 0

def ports (ip : Net.Ipv4) (protocol : Kinet.Protocol) (arrivals : List Arrival)
    : List Kinet.Port :=
  match protocol with
  | .v1 => countedPorts ip arrivals
  | .v2 => recordedPorts ip [] arrivals

def enumerate (air : Airwaves m) (settings : Settings) (ip : Net.Ipv4)
    (protocol : Kinet.Protocol)
    : m (Except ScanFault (List Kinet.Port)) := do
  let question : Question := {
    datagram := enumerationRequest protocol
    targets := [⟨ip, settings.port⟩]
    broadcast := false
    window := settings.timeout
    last := closesWindow ip (protocol == .v1)
  }
  match ← air.ask question with
  | .error fault => return .error (.noEnumerationSocket fault)
  | .ok outcome =>
    match outcome.refused with
    | (target, fault) :: _ => return .error (.notSent target fault)
    | [] => return .ok (ports ip protocol outcome.arrivals)

/-- A supply with the ports that it answers with; without an answer it keeps none. -/
def withPorts (air : Airwaves m) (settings : Settings) (supply : Supply) : m Supply := do
  match ← enumerate air settings supply.ip supply.protocol with
  | .ok ports => return { supply with ports }
  | .error _ => return supply

/-- Asks who is there and then, if the settings say so, each supply for its ports. -/
def scan (air : Airwaves m) (settings : Settings)
    : m (Except ScanFault (List Supply)) := do
  match ← discover air settings with
  | .error fault => return .error fault
  | .ok found =>
    let supplies := found.map Supply.ofReply
    if settings.enumerate then
      return .ok (← supplies.mapM (withPorts air settings))
    else return .ok supplies

/-- The distinct broadcast addresses of some interfaces, in order; without any interface, the
address of every host of the local network. -/
def broadcastTargets (found : List Net.Ipv4) : List Net.Ipv4 :=
  if found.isEmpty then [Net.Ipv4.limitedBroadcast] else found.eraseDups

/-- The asking side of a host without network. -/
def offline (m : Type → Type) [Monad m] : Airwaves m where
  interfaces := return broadcastTargets []
  ask question :=
    let refused := question.targets.map (fun target => (target, SystemFault.unreachable))
    return .ok { refused, arrivals := [] }

end PixelTree.Discovery
