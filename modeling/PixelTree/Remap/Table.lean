import PixelTree.Random.Shuffle
import PixelTree.Remap.Rule
import PixelTree.Time

/-! Tables that send the visible indices of a strip to its own indices. -/

namespace PixelTree.Remap

/-- The indices below `count` at distances of `stride` from `start` on. -/
def strided (count stride start : Nat) : List Nat :=
  (List.range ((count - start + stride - 1) / stride)).map (fun k => start + k * stride)

/-- The indices below `count`, those at distances of `stride` from each other in one run. -/
def interleaved (count stride : Nat) : List Nat :=
  (List.range (min stride count)).flatMap (strided count stride)

/-- The index `offset` further on. The sum is a word and wraps like one. -/
def advanced (count offset index : Nat) : Nat :=
  (index + offset) % Numeral.wordLimit % count

/-- The indices below `count`, each moved on by `offset`. -/
def shifted (count offset : Nat) : Array Nat :=
  (Array.range count).map (advanced count offset)

/-- The number of whole steps after a span of time, the nearest signed word to
`seconds * speed * count`. -/
def steps (elapsed : Nat) (speed : Float) (count : Nat) : Int :=
  (Time.seconds elapsed * speed * (UInt64.ofNat count).toFloat).round.toInt64.toInt

/-- The number of steps after which a bounce repeats itself. The far end is visited twice in a
row and the near end once. -/
def period (span : Nat) : Nat :=
  max (2 * span - 1) 1

/-- The place of a bounce after some steps, counted back from the period past the far end. -/
def bouncePlace (span : Nat) (step : Int) : Nat :=
  let p := (step % (period span : Int)).toNat
  if p < span then p else period span - p

def offsetAfter? (count : Nat) (stepsAt : Float → Int) : Rule → Option Nat
  | .rotate speed => some (stepsAt speed % (count : Int)).toNat
  | .bounce speed after =>
    (Rule.span? count after).map (fun span => bouncePlace span (stepsAt speed) % count)
  | _ => none

/-- A rule and its table: the inner index of each visible index. -/
structure Table where
  rule : Rule
  indices : Array Nat

namespace Table

def size (table : Table) : Nat :=
  table.indices.size

/-- The table at a time since it was made. The table of a rule that does not move stays. -/
def atTime (table : Table) (elapsed : Nat) : Table :=
  if table.size = 0 then table
  else
    match offsetAfter? table.size (steps elapsed · table.size) table.rule with
    | none => table
    | some offset => { table with indices := shifted table.size offset }

/-- The first table of a rule. -/
def initial (rule : Rule) (count : Nat) : Table :=
  match rule with
  | .random seed => ⟨rule, Random.shuffle seed (Array.range count)⟩
  | .skip stride => ⟨rule, (interleaved count stride).toArray⟩
  | .shift offset => ⟨rule, shifted count offset⟩
  | _ => Table.atTime ⟨rule, Array.replicate count 0⟩ 0

/-- The first table of a rule, for a strip that the rule applies to. -/
def make (rule : Rule) (count : Nat) : Except Rule.Fault Table := do
  rule.check count
  return initial rule count

/-- The table with another fixed offset; a rule of another kind is left alone. -/
def withOffset (table : Table) (offset : Nat) : Table :=
  match table.rule with
  | .shift _ => ⟨.shift offset, shifted table.size offset⟩
  | _ => table

def index? (table : Table) (visible : Nat) : Option Nat :=
  table.indices[visible]?

end Table

end PixelTree.Remap
