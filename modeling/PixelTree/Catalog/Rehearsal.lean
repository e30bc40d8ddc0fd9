import PixelTree.Catalog.Basic

/-! The type of devices that rehearse failures: `tap:count[/label[/fails]]`. -/

namespace PixelTree

namespace Rehearsal

/-- Cuts at every slash. -/
def splitSlashes : List Char → List (List Char)
  | [] => [[]]
  | c :: rest =>
    match splitSlashes rest with
    | [] => [[c]]
    | part :: parts => if c = '/' then [] :: part :: parts else (c :: part) :: parts

def word32? (cs : List Char) : Option Nat :=
  Numeral.natural? UInt32.size (String.ofList cs)

/-- A device with one, two or three parts of an argument: its number of pixels, its label, and
the number of flushes that fail. -/
def ofParts? : List (List Char) → Option Rehearsal
  | [count] => do return fresh (← word32? count) "" 0
  | [count, label] => do return fresh (← word32? count) (String.ofList label) 0
  | [count, label, failures] => do
    let count ← word32? count
    return fresh count (String.ofList label) (← word32? failures)
  | _ => none

def make : List String → Making Node
  | [argument] =>
    (ofParts? (splitSlashes argument.toList)).elim (throw .rehearsal)
      (fun device => pure (.tap device))
  | _ => throw .rehearsal

def entry : Entry :=
  ⟨"tap", .device make, "count[/label[/fails]]", "Test device"⟩

end Rehearsal

end PixelTree
