import PixelTree.Catalog.Basic
import PixelTree.Configuration
import PixelTree.Discovery.Scan

/-! Why a command fails, and how the failure is reported: what went wrong, and under it the causes,
one inside the other.
-/

namespace PixelTree.CommandLine

/-- A command that was not carried out. -/
inductive Failure where
  | configuration (path : String) (fault : Configuration.LoadFault)
  /-- No descriptor is given anywhere; the path is that of the configuration. -/
  | noDescriptor (path : String)
  | color (error : Color.ParseError)
  /-- No frame is ever due. -/
  | noRate
  | build (error : BuildError)
  | scan (fault : Discovery.ScanFault)
deriving DecidableEq

namespace Failure

/-- The name of the variable that a descriptor is taken from. -/
def descriptorVariable : String := "PIXELPIPE_DESCRIPTOR"

def message : Failure → String
  | .configuration path .malformed => s!"Failed to parse {path}"
  | .configuration path _ => s!"Failed to read {path}"
  | .noDescriptor path =>
    s!"No descriptor: pass --descriptor, set {descriptorVariable} or add [output] "
      ++ s!"descriptor to {path}"
  | .color _ => "Invalid --color"
  | .noRate => "fps must be at least 1"
  | .build error => error.message
  | .scan fault => fault.message

/-- The causes, the outermost first. -/
def causes : Failure → List String
  | .configuration _ (.refused fault) => [fault.message]
  | .configuration _ .notText => ["stream did not contain valid UTF-8"]
  | .color error => [error.message]
  | .scan fault => [fault.cause.message]
  | _ => []

/-- A text with blanks behind every line break. -/
def indented (width : Nat) (text : String) : String :=
  String.ofList (text.toList.flatMap (fun c =>
    if c = '\n' then '\n' :: List.replicate width ' ' else [c]))

/-- A text with blanks before it up to a width. -/
def padLeft (width : Nat) (text : String) : String :=
  String.ofList (List.replicate (width - text.length) ' ') ++ text

/-- Causes one below the other, numbered from zero if there are several. -/
def causeLines : List String → List String
  | [] => []
  | [cause] => ["    " ++ indented 4 cause]
  | causes =>
    causes.zipIdx.map (fun entry =>
      padLeft 5 (Numeral.decimal entry.2) ++ ": " ++ indented 7 entry.1)

def report (failure : Failure) : String :=
  let causes := failure.causes
  let heading := s!"Error: {failure.message}"
  if causes.isEmpty then heading
  else heading ++ "\n\nCaused by:\n" ++ "\n".intercalate (causeLines causes)

end Failure

end PixelTree.CommandLine
