import PixelTree.Device.Fault
import PixelTree.Device.Strip
import PixelTree.Kinet.Frame
import PixelTree.Kinet.Link

/-! A string of lights on a supply, which a flush sends its pixels to. -/

namespace PixelTree.Kinet

/-- An address, its pixels, and the way there. -/
structure Output where
  address : Address
  strip : Strip
  link : Link
  /-- Whether frames of version 2 are followed by the packet that shows them. -/
  sync : Bool
  lastFault : Option DeviceFault

namespace Output

/-- A dark string of lights whose supply listens on a given port. -/
def onPort (port : UInt16) (address : Address) : Output :=
  ⟨address, Strip.dark address.count, Link.closed ⟨address.ip, port⟩, false, none⟩

def fresh (address : Address) : Output :=
  onPort udpPort address

def frame (output : Output) : Bytes :=
  match output.address.protocol with
  | .v1 => dmxOut output.address.dmxUniverse output.strip.levels
  | .v2 => portOut output.address.port output.address.dmxUniverse output.strip.levels

/-- Whether a frame is to be followed by the packet that shows it. -/
def needsSync (output : Output) : Bool :=
  output.sync && output.address.protocol == .v2

variable {m : Type → Type} [Monad m]

/-- Sends the frame, and the packet that shows it if that is asked for. -/
def transmit (network : Net.Outbound m) (output : Output)
    : m (Link × Except SystemFault Unit) := do
  let (link, result) ← output.link.send network output.frame
  match result with
  | .error fault => return (link, .error fault)
  | .ok () =>
    if output.needsSync then link.send network portOutSync
    else return (link, .ok ())

def flush (network : Net.Outbound m) (output : Output)
    : m (Output × Except DeviceFault Unit) := do
  let (link, result) ← output.transmit network
  match result with
  | .ok () => return ({ output with link, lastFault := none }, .ok ())
  | .error fault =>
    let fault := DeviceFault.sending output.address fault
    return ({ output with link, lastFault := some fault }, .error fault)

end Output

end PixelTree.Kinet
