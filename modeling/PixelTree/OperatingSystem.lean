import PixelTree.CommandLine.Host
import Std.Async.Timer
import Std.Async.UDP

/-! The services of the operating system. Nothing is decided here. -/

namespace PixelTree.OperatingSystem

open Std.Async

/-- The fault with a code; the text given is that of a code without a known one. -/
def fault (code : UInt32) (text : String) : SystemFault :=
  (SystemFault.known.find? (·.code == code.toNat)).getD ⟨text, code.toNat⟩

def faultOf : IO.Error → SystemFault
  | .otherError code text | .resourceBusy code text | .resourceVanished code text
  | .unsupportedOperation code text | .hardwareFault code text
  | .unsatisfiedConstraints code text | .illegalOperation code text
  | .protocolError code text | .timeExpired code text | .alreadyExists _ code text
  | .interrupted _ code text | .noFileOrDirectory _ code text | .invalidArgument _ code text
  | .permissionDenied _ code text | .resourceExhausted _ code text
  | .inappropriateType _ code text | .noSuchThing _ code text => fault code text
  | .unexpectedEof => ⟨"unexpected end of file", 0⟩
  | .userError text => ⟨text, 0⟩

/-- The result of an action that may report an error. -/
def attempt {α : Type} (action : IO α) : IO (Except SystemFault α) := do
  try return .ok (← action) catch error => return .error (faultOf error)

def socketAddress (endpoint : Net.Endpoint) : Std.Net.SocketAddress :=
  .v4 ⟨⟨#v[endpoint.ip.a, endpoint.ip.b, endpoint.ip.c, endpoint.ip.d]⟩, endpoint.port⟩

/-- The network address of a socket address, if it is one of four octets. -/
def ipOf? : Std.Net.IPAddr → Option Net.Ipv4
  | .v4 address =>
    some ⟨address.octets[0], address.octets[1], address.octets[2], address.octets[3]⟩
  | .v6 _ => none

/-- A socket on every interface and a free port. -/
def freshSocket (broadcast : Bool) : IO UDP.Socket := do
  let socket ← UDP.Socket.mk
  socket.bind (socketAddress ⟨⟨0, 0, 0, 0⟩, 0⟩)
  if broadcast then socket.setBroadcast true
  return socket

def sendDatagram (socket : UDP.Socket) (target : Net.Endpoint) (datagram : List UInt8)
    : IO (Except SystemFault Unit) :=
  attempt (socket.send ⟨datagram.toArray⟩ (some (socketAddress target))).block

/-- How many sockets were opened for frames, and those that are still of use. -/
abbrev Sockets := IO.Ref (Nat × List (Net.Socket × UDP.Socket))

def outbound (sockets : Sockets) : Net.Outbound IO where
  openSocket :=
    attempt do
      let fresh ← freshSocket false
      sockets.modifyGet fun (count, found) => (⟨count⟩, count + 1, (⟨count⟩, fresh) :: found)
  send socket target datagram := do
    match (← sockets.get).2.lookup socket with
    | some found =>
      let result ← sendDatagram found target datagram
      if !result.isOk then
        sockets.modify fun (count, found) => (count, found.filter (·.1 != socket))
      return result
    | none => return .error SystemFault.unreachable

/-- The next arrival, if there is one before a number of milliseconds has passed. -/
def arrivalWithin (socket : UDP.Socket) (span : Nat) : IO (Option Discovery.Arrival) :=
  Async.block do
    let limit := UInt64.ofNat Discovery.receiveLimit
    Selectable.one #[
      .case (socket.recvSelector limit) fun (datagram, source) =>
        return some ⟨(source.bind (ipOf? ·.ipAddr)).getD ⟨0, 0, 0, 0⟩, datagram.toList⟩,
      .case (← Selector.sleep (Std.Time.Millisecond.Offset.ofNat span)) fun _ =>
        return none ]

/-- What arrives until a time. -/
partial def arrivalsUntil (socket : UDP.Socket) (last : Discovery.Arrival → Bool)
    (deadline : Nat) (earlier : List Discovery.Arrival)
    : IO (List Discovery.Arrival) := do
  let now ← IO.monoMsNow
  if deadline ≤ now then return earlier.reverse
  match ← arrivalWithin socket (deadline - now) with
  | none => return earlier.reverse
  | some arrival =>
    if last arrival then return (arrival :: earlier).reverse
    arrivalsUntil socket last deadline (arrival :: earlier)

/-- The targets among some that a datagram cannot be sent to. -/
def refusals (socket : UDP.Socket) (datagram : List UInt8) (targets : List Net.Endpoint)
    : IO (List (Net.Endpoint × SystemFault)) :=
  targets.filterMapM fun target => do
    match ← sendDatagram socket target datagram with
    | .ok () => return none
    | .error fault => return some (target, fault)

/-- The broadcast addresses of the interfaces that lead out of the host. -/
def interfaceTargets : IO (List Net.Ipv4) := do
  let found ← Std.Net.interfaceAddresses
  return Discovery.broadcastTargets (found.toList.filterMap fun interface =>
    if interface.isLoopback then none
    else do
      let ip ← ipOf? interface.address
      let mask ← ipOf? interface.netMask
      return ip.broadcast mask.ones)

def airwaves : Discovery.Airwaves IO where
  interfaces := interfaceTargets
  ask question :=
    attempt do
      let socket ← freshSocket question.broadcast
      let refused ← refusals socket question.datagram question.targets
      let deadline := (← IO.monoMsNow) + question.window
      return ⟨refused, ← arrivalsUntil socket question.last deadline []⟩

/-- A span in milliseconds, rounded up and held at the longest sleep. -/
def milliseconds (span : Nat) : UInt32 :=
  UInt32.ofNat
    (min ((span + Time.perMillisecond - 1) / Time.perMillisecond) (UInt32.size - 1))

def surroundings (sockets : Sockets) (start : Nat) : Surroundings IO where
  toOutbound := outbound sockets
  now := return (← IO.monoNanosNow) - start
  pause span := IO.sleep (milliseconds span)
  note _ := return ()

def sourceAt (path : String) : IO Configuration.Source := do
  try return .file (← IO.FS.readBinFile path).toList
  catch
    | .noFileOrDirectory .. => return .missing
    | error => return .refused (faultOf error)

def freshSeeds : IO SeedSupply := do
  let bytes ← IO.getRandomBytes 8
  return SeedSupply.ofEntropy
    (bytes.toList.foldl (fun word byte => word * 256 + byte.toUInt64) 0)

def host : IO (CommandLine.Host IO) := do
  let sockets ← IO.mkRef (0, [])
  let start ← IO.monoNanosNow
  return {
    air := airwaves
    around := surroundings sockets start
    source := sourceAt
    ambient := IO.getEnv CommandLine.Failure.descriptorVariable
    seeds := freshSeeds
  }

end PixelTree.OperatingSystem
