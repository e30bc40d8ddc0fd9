import PixelTree.Surroundings

/-! A host without any network: sockets can be opened, but no datagram leaves. -/

namespace PixelTree.Net

/-- The most bytes that a datagram may have before a way to its target is looked for. -/
def maxDatagram : Nat := 65535

def offlineResult (datagram : List UInt8) : Except SystemFault Unit :=
  if maxDatagram < datagram.length then throw SystemFault.messageTooLong
  else throw SystemFault.unreachable

/-- The sending side of a host without network. -/
def offline (m : Type → Type) [Monad m] : Outbound m where
  openSocket := return .ok ⟨0⟩
  send _ _ datagram := return offlineResult datagram

end PixelTree.Net
