import PixelTree.Node.Flush

/-! A lit pixel that walks along a strip with a fading tail, and the loop that shows it. -/

namespace PixelTree

/-- A color, and the number of pixels behind the head that still glow. -/
structure Chase where
  color : Color
  tail : Nat

namespace Chase

def ofColor (color : Color) : Chase :=
  ⟨color, 4⟩

/-- How bright the pixel at a distance behind the head is, one at the head. -/
def glow (tail distance : Nat) : Float32 :=
  1 - (UInt64.ofNat distance).toFloat32 / (UInt64.ofNat (tail + 1)).toFloat32

/-- The color at a distance behind the head. -/
def colorAt (chase : Chase) (distance : Nat) : Color :=
  Color.black.blend chase.color (glow chase.tail distance)

/-- The index at a distance behind the head, which walks on by one in each frame. -/
def indexAt (count frame distance : Nat) : Nat :=
  (frame % count + count - distance) % count

/-- The distances that are painted on a strip of `count` pixels: no pixel is painted twice. -/
def distances (chase : Chase) (count : Nat) : List Nat :=
  List.range (min chase.tail (count - 1) + 1)

def paint (chase : Chase) (node : Node) (frame : Nat) : Node :=
  let count := node.count
  let cleared := node.clear
  if count = 0 then cleared
  else
    (chase.distances count).foldl
      (fun node distance => node.set (indexAt count frame distance) (chase.colorAt distance))
      cleared

end Chase

/-- How many frames were shown, and how many of them a device failed to take. -/
structure Tally where
  frames : Nat
  failed : Nat
deriving DecidableEq

/-- The tally so far, and the time at which the next frame is due. -/
structure Progress where
  tally : Tally
  due : Nat

namespace Chase

def interval (framesPerSecond : Nat) : Nat :=
  Time.ofSeconds (1 / (UInt64.ofNat (max framesPerSecond 1)).toFloat)

/-- The tally after one more frame. -/
def counted (tally : Tally) (result : Except DeviceFault Unit) : Tally :=
  ⟨tally.frames + 1, tally.failed + if result.isOk then 0 else 1⟩

variable {m : Type → Type} [Monad m]

/-- Waits until a time, or takes the time that it is if that has passed. -/
def awaitTime (around : Surroundings m) (due : Nat) : m Nat := do
  let now ← around.now
  if now < due then do
    around.pause (due - now)
    return due
  else return now

/-- Paints and flushes one frame and waits for the next one. A fault is counted, and that is
all. -/
def round (around : Surroundings m) (chase : Chase) (interval : Nat) (node : Node)
    (progress : Progress)
    : m (Node × Progress) := do
  let painted := chase.paint node progress.tally.frames
  let (node, result) ← painted.flush around
  let due ← awaitTime around (progress.due + interval)
  return (node, ⟨counted progress.tally result, due⟩)

def rounds (around : Surroundings m) (chase : Chase) (interval : Nat) (node : Node)
    (progress : Progress)
    : Nat → m (Node × Progress)
  | 0 => return (node, progress)
  | count + 1 => do
    let (node, progress) ← round around chase interval node progress
    rounds around chase interval node progress count

/-- Shows a number of frames from the first one on. -/
def run (around : Surroundings m) (chase : Chase) (framesPerSecond frames : Nat) (node : Node)
    : m (Node × Tally) := do
  let start ← around.now
  let (node, progress) ←
    rounds around chase (interval framesPerSecond) node ⟨⟨0, 0⟩, start⟩ frames
  return (node, progress.tally)

end Chase

end PixelTree
