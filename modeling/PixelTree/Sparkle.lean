import PixelTree.Color.Basic
import PixelTree.Random.Normal
import PixelTree.Time

/-! Sparkling pixels: each is dark and lit in turn, for random spans of time. -/

namespace PixelTree

/-- A pixel that sparkles: whether it is lit, and when that changes. -/
structure Twinkle where
  lit : Bool
  nextChange : Nat
deriving DecidableEq

namespace Twinkle

/-- A source of waits: from a mean span and its state it draws a span and a new state. -/
abbrev WaitSource (γ : Type) := Nat → γ → Nat × γ

/-- A normally distributed span with a deviation of a quarter of its mean, held between zero
and twice the mean. -/
def drawWait : WaitSource Random.Generator := fun mean g =>
  let mean := Time.seconds mean
  let deviation := mean / 4
  let (sample, g) := Random.normal mean deviation g
  let most := 2 * mean
  let held := if sample < 0 then 0 else if most < sample then most else sample
  (Time.ofSeconds held, g)

variable {γ : Type}

/-- Dark pixels whose first waits are drawn one after the other. -/
def start (draw : WaitSource γ) (offMean : Nat) (g : γ) : Nat → List Twinkle × γ
  | 0 => ([], g)
  | count + 1 =>
    let (wait, g) := draw offMean g
    let (rest, g) := start draw offMean g count
    (⟨false, wait⟩ :: rest, g)

/-- A pixel whose time is up changes and draws the wait for its new state. -/
def step (draw : WaitSource γ) (onMean offMean now : Nat) (twinkle : Twinkle) (g : γ)
    : Twinkle × γ :=
  if now < twinkle.nextChange then (twinkle, g)
  else
    let lit := !twinkle.lit
    let (wait, g) := draw (if lit then onMean else offMean) g
    (⟨lit, now + wait⟩, g)

/-- One round over all pixels in index order. -/
def advance (draw : WaitSource γ) (onMean offMean now : Nat)
    : List Twinkle → γ → List Twinkle × γ
  | [], g => ([], g)
  | twinkle :: rest, g =>
    let (twinkle, g) := step draw onMean offMean now twinkle g
    let (rest, g) := advance draw onMean offMean now rest g
    (twinkle :: rest, g)

theorem length_start (draw : WaitSource γ) (offMean : Nat) (g : γ) (count : Nat)
    : (start draw offMean g count).1.length = count := by
  induction count generalizing g with
  | zero => rfl
  | succ count ih => rw [start, List.length_cons, ih]

/-- A round over the pixels of a sparkle leaves as many of them, by induction over them. -/
theorem length_advance (draw : WaitSource γ) (onMean offMean now : Nat) (twinkles : List Twinkle)
    (g : γ)
    : (advance draw onMean offMean now twinkles g).1.length = twinkles.length := by
  induction twinkles generalizing g with
  | nil => rfl
  | cons twinkle rest ih => rw [advance, List.length_cons, List.length_cons, ih]

end Twinkle

/-- A color, the mean spans of both states in milliseconds, the seed, what is left of its
stream, and the pixels. -/
structure Sparkle where
  color : Color
  onMean : Nat
  offMean : Nat
  seed : UInt64
  generator : Random.Generator
  twinkles : List Twinkle

namespace Sparkle

/-- The mean of the lit state where none is given. -/
def defaultOnMean : Nat := 100

/-- The mean of the dark state where none is given. -/
def defaultOffMean : Nat := 2000

/-- Dark pixels at time zero. -/
def start (color : Color) (onMean offMean : Nat) (seed : UInt64) (count : Nat) : Sparkle :=
  let (twinkles, generator) :=
    Twinkle.start Twinkle.drawWait (offMean * Time.perMillisecond)
      (Random.Generator.ofSeed seed) count
  ⟨color, onMean, offMean, seed, generator, twinkles⟩

def advance (sparkle : Sparkle) (now : Nat) : Sparkle :=
  let (twinkles, generator) :=
    Twinkle.advance Twinkle.drawWait (sparkle.onMean * Time.perMillisecond)
      (sparkle.offMean * Time.perMillisecond) now sparkle.twinkles sparkle.generator
  { sparkle with twinkles, generator }

/-- The indices of the lit pixels in order. -/
def litIndices (sparkle : Sparkle) : List Nat :=
  (sparkle.twinkles.zipIdx.filter (fun entry => entry.1.lit)).map Prod.snd

def litCount (sparkle : Sparkle) : Nat :=
  sparkle.twinkles.countP Twinkle.lit

/-- The written form of a sparkle with all of its arguments. -/
def display (sparkle : Sparkle) : String :=
  let times := s!"{Numeral.decimal sparkle.onMean},{Numeral.decimal sparkle.offMean}"
  s!"sparkle:{sparkle.color.display},{times},{Numeral.decimal sparkle.seed.toNat}"

end Sparkle

end PixelTree
