import PixelTree.Surroundings

/-! The way to one supply. Its socket is opened for the first datagram and given up after a
fault, so that the next datagram starts with a fresh one.
-/

namespace PixelTree.Kinet

/-- A target, and the socket that is open for it, if there is one. -/
structure Link where
  target : Net.Endpoint
  socket : Option Net.Socket
deriving DecidableEq

namespace Link

/-- A link that was never used. -/
def closed (target : Net.Endpoint) : Link :=
  ⟨target, none⟩

def isOpen (link : Link) : Bool :=
  link.socket.isSome

variable {m : Type → Type} [Monad m]

/-- Takes the socket out of a link, or opens one if there is none, and puts it back. -/
def ready (network : Net.Outbound m) (link : Link)
    : m (Link × Except SystemFault Net.Socket) := do
  let emptied := { link with socket := none }
  let taken ←
    match link.socket with
    | some socket => pure (.ok socket)
    | none => network.openSocket
  match taken with
  | .ok socket => return ({ emptied with socket := some socket }, .ok socket)
  | .error fault => return (emptied, .error fault)

/-- Sends a datagram. After a fault of any kind the link has no socket. -/
def send (network : Net.Outbound m) (link : Link) (datagram : List UInt8)
    : m (Link × Except SystemFault Unit) := do
  let (link, readied) ← link.ready network
  let result ←
    match readied with
    | .ok socket => network.send socket link.target datagram
    | .error fault => pure (.error fault)
  match result with
  | .ok () => return (link, .ok ())
  | .error fault => return ({ link with socket := none }, .error fault)

end Link

end PixelTree.Kinet
