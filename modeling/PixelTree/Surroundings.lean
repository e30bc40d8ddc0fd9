import PixelTree.SystemFault
import PixelTree.Net.Ipv4

/-! What a tree needs of the world around it when it is flushed.
A flush is written once for every monad in which these services can be offered: the operating
system offers them with effects, and a state monad offers any course of events at all.
-/

namespace PixelTree

/-- Where a datagram goes. -/
structure Net.Endpoint where
  ip : Net.Ipv4
  port : UInt16
deriving DecidableEq

/-- A socket, by the number that the network gave it. -/
structure Net.Socket where
  number : Nat
deriving DecidableEq

/-- The sending side of the network. -/
structure Net.Outbound (m : Type → Type) where
  openSocket : m (Except SystemFault Net.Socket)
  /-- Sends one datagram from a socket to a target. A socket that fails to is of no more use. -/
  send : Net.Socket → Net.Endpoint → List UInt8 → m (Except SystemFault Unit)

/-- A flush of a rehearsed device: the levels of its pixels, and whether it succeeded. -/
structure RehearsalNote where
  label : String
  levels : List UInt8
  succeeded : Bool
deriving DecidableEq

/-- The services around a tree. -/
structure Surroundings (m : Type → Type) extends Net.Outbound m where
  /-- Nanoseconds since the tree was built. -/
  now : m Nat
  /-- Waits for a number of nanoseconds. -/
  pause : Nat → m Unit
  /-- Takes note of a flush of a rehearsed device. -/
  note : RehearsalNote → m Unit

end PixelTree
