import PixelTree.OperatingSystem

/-! The program: arguments in, text and an exit code out. -/

open PixelTree

/-- Does what the arguments ask for, prints the output and reports a failure. -/
def main (arguments : List String) : IO UInt32 := do
  let host ← OperatingSystem.host
  let ending ← host.run arguments
  IO.print ending.output
  if let some report := ending.report then IO.eprintln report
  return ending.code.toUInt32
