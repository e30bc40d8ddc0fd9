import PixelTree.Decimal.Shortest
import PixelTree.Numeral

/-! The rules by which a strip is renumbered. -/

namespace PixelTree.Remap

/-- How a table of indices is filled. -/
inductive Rule where
  /-- One shuffle that the seed stands for. -/
  | random (seed : UInt64)
  /-- Every index at a distance of `stride`, then those one further on, and so on. -/
  | skip (stride : Nat)
  /-- Indices moved on by a fixed offset, going on at the start. -/
  | shift (offset : Nat)
  /-- An offset that grows by `speed` strip lengths each second. -/
  | rotate (speed : Float)
  /-- An offset that moves to and fro, turning after a number of strip lengths. -/
  | bounce (speed : Float) (after : Nat)

namespace Rule

def name : Rule → String
  | .random _ => "random"
  | .skip _ => "skip"
  | .shift _ => "shift"
  | .rotate _ => "rotate"
  | .bounce _ _ => "bounce"

/-- The written form of a rule with all of its arguments. -/
def display : Rule → String
  | .random seed => "random:" ++ Numeral.decimal seed.toNat
  | .skip stride => "skip:" ++ Numeral.decimal stride
  | .shift offset => "shift:" ++ Numeral.decimal offset
  | .rotate speed => "rotate:" ++ Decimal.display speed
  | .bounce speed after => s!"bounce:{Decimal.display speed},{Numeral.decimal after}"

/-- Whether the table of a rule changes with time. -/
def moves : Rule → Bool
  | .rotate _ | .bounce _ _ => true
  | _ => false

/-- Why a rule does not apply to a strip. -/
inductive Fault where
  | strideZero
  | speedNotFinite
  | afterZero
  | afterTooLarge (after count : Nat)
deriving DecidableEq

def Fault.message : Fault → String
  | .strideZero => "stride must be at least 1"
  | .speedNotFinite => "speed must be finite"
  | .afterZero => "after must be at least 1"
  | .afterTooLarge after count =>
    s!"after {Numeral.decimal after} is too large for {Numeral.decimal count} pixels"

/-- The number of steps between the turns of a bounce, if it is a word, a signed word, and its
double is a signed word too. -/
def span? (count after : Nat) : Option Nat :=
  let product := Option.guard (· < Numeral.wordLimit) (count * after)
  let span := product.filter (· < Numeral.signedLimit)
  span.filter (2 * · < Numeral.signedLimit)

/-- The last of the three bounds decides. -/
theorem span?_eq (count after : Nat)
    : span? count after
      = if 2 * (count * after) < Numeral.signedLimit then some (count * after) else none := by
  have word : Numeral.signedLimit ≤ Numeral.wordLimit := by decide
  by_cases fits : 2 * (count * after) < Numeral.signedLimit
  · have single : count * after < Numeral.signedLimit := by omega
    have small : count * after < Numeral.wordLimit := by omega
    simp [span?, Option.guard, small, single, fits]
  · simp only [span?, if_neg fits]
    rw [Option.filter_eq_none_iff]
    intro span found
    obtain ⟨found, _⟩ := Option.filter_eq_some_iff.mp found
    obtain ⟨rfl, _⟩ := Option.guard_eq_some_iff.mp found
    simpa using fits

/-- Whether a rule applies to a strip of `count` pixels. -/
def check (count : Nat) : Rule → Except Fault Unit
  | .skip stride => if stride = 0 then throw .strideZero else return ()
  | .rotate speed => if speed.isFinite then return () else throw .speedNotFinite
  | .bounce speed after =>
    if !speed.isFinite then throw .speedNotFinite
    else if after = 0 then throw .afterZero
    else if (span? count after).isNone then throw (.afterTooLarge after count)
    else return ()
  | _ => return ()

end Rule

end PixelTree.Remap
