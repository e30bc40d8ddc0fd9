import PixelTree.Device.Strip

/-! A device without hardware that keeps the frame of its last flush. -/

namespace PixelTree

/-- A strip, the frame that was last flushed, and the number of flushes. -/
structure MemoryDevice where
  strip : Strip
  frame : Strip
  flushes : Nat

namespace MemoryDevice

/-- A device that was never flushed. -/
def fresh (count : Nat) : MemoryDevice :=
  ⟨Strip.dark count, Strip.dark count, 0⟩

/-- Keeps the strip as the last frame. -/
def flush (device : MemoryDevice) : MemoryDevice :=
  { device with frame := device.strip, flushes := device.flushes + 1 }

end MemoryDevice

end PixelTree
