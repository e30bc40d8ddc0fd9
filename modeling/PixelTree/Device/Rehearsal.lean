import PixelTree.Device.Fault
import PixelTree.Device.Strip
import PixelTree.Surroundings

/-! A device that rehearses failures: its first flushes fail, all later ones succeed, and each
is noted.
-/

namespace PixelTree

/-- A labelled strip, how many of its flushes fail, and how many there were. -/
structure Rehearsal where
  label : String
  failures : Nat
  strip : Strip
  flushes : Nat
  lastFault : Option DeviceFault

namespace Rehearsal

/-- A device that was never flushed. -/
def fresh (count : Nat) (label : String) (failures : Nat) : Rehearsal :=
  ⟨label, failures, Strip.dark count, 0, none⟩

def display (device : Rehearsal) : String :=
  let count := Numeral.decimal device.strip.size
  s!"{count}/{device.label}/{Numeral.decimal device.failures}"

/-- Notes the pixels, and fails while the failures last. -/
def flush {m : Type → Type} [Monad m] (around : Surroundings m) (device : Rehearsal)
    : m (Rehearsal × Except DeviceFault Unit) := do
  let flushes := device.flushes + 1
  let succeeded := decide (device.failures < flushes)
  around.note ⟨device.label, device.strip.levels, succeeded⟩
  if succeeded then
    return ({ device with flushes, lastFault := none }, .ok ())
  else
    let fault := DeviceFault.rehearsed device.label flushes
    return ({ device with flushes, lastFault := some fault }, .error fault)

end Rehearsal

end PixelTree
