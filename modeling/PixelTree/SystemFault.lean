import PixelTree.Numeral

/-! Faults that the operating system reports. -/

namespace PixelTree

/-- A fault with its number. -/
structure SystemFault where
  text : String
  code : Nat
deriving DecidableEq

namespace SystemFault

def message (fault : SystemFault) : String :=
  s!"{fault.text} (os error {Numeral.decimal fault.code})"

def messageTooLong : SystemFault := ⟨"Message too long", 90⟩

/-- No way leads to the target of a datagram. -/
def unreachable : SystemFault := ⟨"Network is unreachable", 101⟩

/-- The target is a broadcast address, and the socket may not broadcast. -/
def permissionDenied : SystemFault := ⟨"Permission denied", 13⟩

def isDirectory : SystemFault := ⟨"Is a directory", 21⟩

def known : List SystemFault :=
  [messageTooLong, unreachable, permissionDenied, isDirectory]

end SystemFault

end PixelTree
