import PixelTree.Kinet.Reply
import PixelTree.Net.Ipv4

/-! What the datagrams that arrive in a window say. Datagrams that are no answers to the question
at hand are passed over.
-/

namespace PixelTree.Discovery

/-- A datagram and the address that it came from. -/
structure Arrival where
  source : Net.Ipv4
  datagram : List UInt8
deriving DecidableEq

/-- The most bytes of a datagram that are looked at. -/
def receiveLimit : Nat := 2048

def Arrival.bytes (arrival : Arrival) : List UInt8 :=
  arrival.datagram.take receiveLimit

/-- What tells supplies apart. -/
abbrev Identity := Net.Ipv4 × Kinet.Mac

def identity (reply : Kinet.DiscoverReply) : Identity :=
  (reply.ip, reply.mac)

/-- The first reply of each supply that is not known yet. -/
def newReplies (known : List Identity) : List Arrival → List Kinet.DiscoverReply
  | [] => []
  | arrival :: rest =>
    match Kinet.DiscoverReply.decode arrival.bytes with
    | .error _ => newReplies known rest
    | .ok reply =>
      if identity reply ∈ known then newReplies known rest
      else reply :: newReplies (identity reply :: known) rest

/-- The first reply of each supply, in order of arrival. -/
def replies (arrivals : List Arrival) : List Kinet.DiscoverReply :=
  newReplies [] arrivals

/-- The ports of four light counts, numbered from one. -/
def portsOfCounts (reply : Kinet.PortCounts) : List Kinet.Port :=
  reply.counts.toList.zipIdx.map (fun entry => ⟨UInt8.ofNat (entry.2 + 1), 0, entry.1⟩)

/-- The ports of a supply of version 1: the first answer from it counts. -/
def countedPorts (ip : Net.Ipv4) : List Arrival → List Kinet.Port
  | [] => []
  | arrival :: rest =>
    if arrival.source ≠ ip then countedPorts ip rest
    else
      match Kinet.PortCounts.decode arrival.bytes with
      | .error _ => countedPorts ip rest
      | .ok reply => portsOfCounts reply

/-- The ports of a supply of version 2, after those that were found so far: a start drops
these, and an end is the last record that counts. -/
def recordedPorts (ip : Net.Ipv4) (found : List Kinet.Port)
    : List Arrival → List Kinet.Port
  | [] => found
  | arrival :: rest =>
    if arrival.source ≠ ip then recordedPorts ip found rest
    else
      match Kinet.ScanRecord.decode arrival.bytes with
      | .error _ => recordedPorts ip found rest
      | .ok .start => recordedPorts ip [] rest
      | .ok (.data port) => recordedPorts ip (found ++ [port]) rest
      | .ok .finish => found

/-- Whether an arrival is the last one that can matter for the ports of a supply. -/
def closesWindow (ip : Net.Ipv4) (version1 : Bool) (arrival : Arrival) : Bool :=
  arrival.source == ip
    && if version1 then (Kinet.PortCounts.decode arrival.bytes).isOk
      else
        match Kinet.ScanRecord.decode arrival.bytes with
        | .ok .finish => true
        | _ => false

end PixelTree.Discovery
