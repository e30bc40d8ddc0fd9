import PixelTree.Kinet.Address
import PixelTree.SystemFault

/-! Why a device could not be given its frame. -/

namespace PixelTree

/-- A failed flush of one device. -/
inductive DeviceFault where
  /-- A datagram for a string of lights was not sent. -/
  | sending (address : Kinet.Address) (fault : SystemFault)
  /-- A rehearsed device failed as it was told to. -/
  | rehearsed (label : String) (flush : Nat)
deriving DecidableEq

namespace DeviceFault

def networkMessage (fault : SystemFault) : String :=
  s!"IO error: {fault.message}"

/-- The wording that a device keeps of its last fault. -/
def message : DeviceFault → String
  | .sending address fault => s!"{address.display}: {networkMessage fault}"
  | .rehearsed label flush => s!"{label} failed flush {Numeral.decimal flush}"

def report (fault : DeviceFault) : String :=
  s!"device error: {fault.message}"

end DeviceFault

end PixelTree
