import PixelTree.Discovery.Settings
import PixelTree.SystemFault
import PixelTree.Time
import PixelTree.Toml.Reader

/-! Configurations, and reading them from a file. Without a file everything has its default. -/

namespace PixelTree

/-- What a file settles. -/
structure Configuration where
  /-- The descriptor of the tree to drive where no other one is given. -/
  descriptor : Option String
  framesPerSecond : Nat
  /-- Milliseconds between the flushes of two members of a list. -/
  spacing : Nat
  discovery : Discovery.Settings
deriving DecidableEq

namespace Configuration

/-- The configuration without a file. -/
def standard : Configuration where
  descriptor := none
  framesPerSecond := 30
  spacing := 1
  discovery := Discovery.Settings.standard

/-- Nanoseconds between the flushes of two members of a list. -/
def spacingTime (configuration : Configuration) : Nat :=
  configuration.spacing * Time.perMillisecond

open Discovery.Settings (fieldOr)

/-- Reads the section about the tree and how it is driven. -/
def outputOfToml? (base : Configuration) (table : Toml.Value) : Option Configuration := do
  match ← table.fields? ["descriptor", "fps", "write_spacing_ms"] with
  | [descriptor, framesPerSecond, spacing] =>
    return { base with
      descriptor := ← fieldOr base.descriptor (·.toText?.map some) descriptor
      framesPerSecond :=
        ← fieldOr base.framesPerSecond (·.toNatural? UInt32.size) framesPerSecond
      spacing := ← fieldOr base.spacing (·.toNatural? Numeral.wordLimit) spacing
    }
  | _ => none

def ipOfToml? (value : Toml.Value) : Option Net.Ipv4 := do
  Net.Ipv4.parse? (← value.toText?)

def discoveryOfToml? (base : Configuration) (table : Toml.Value)
    : Option Configuration := do
  let settings := base.discovery
  match ← table.fields? ["broadcast", "timeout_ms", "enumerate", "default_count"] with
  | [broadcast, timeout, enumerate, defaultCount] =>
    return { base with
      discovery := { settings with
        broadcast := ← fieldOr settings.broadcast (fun v => (ipOfToml? v).map some) broadcast
        timeout := ← fieldOr settings.timeout (·.toNatural? Numeral.wordLimit) timeout
        enumerate := ← fieldOr settings.enumerate (·.toBoolean?) enumerate
        defaultCount :=
          ← fieldOr settings.defaultCount (·.toNatural? Numeral.wordLimit) defaultCount
      }
    }
  | _ => none

def ofToml? (document : Toml.Value) : Option Configuration := do
  match ← document.fields? ["output", "discovery"] with
  | [output, discovery] =>
    let base ← fieldOr standard (outputOfToml? standard) output
    fieldOr base (discoveryOfToml? base) discovery
  | _ => none

/-- What stands at the place of a file. -/
inductive Source where
  | missing
  /-- Something that cannot be read. -/
  | refused (fault : SystemFault)
  | file (bytes : List UInt8)

/-- Why a file is no configuration. -/
inductive LoadFault where
  | refused (fault : SystemFault)
  /-- The bytes are not UTF-8. -/
  | notText
  | malformed
deriving DecidableEq

def load : Source → Except LoadFault Configuration
  | .missing => return standard
  | .refused fault => throw (.refused fault)
  | .file bytes =>
    match Text.decode? bytes with
    | none => throw .notText
    | some text => (Toml.parse? text >>= ofToml?).elim (throw .malformed) pure

end Configuration

end PixelTree
