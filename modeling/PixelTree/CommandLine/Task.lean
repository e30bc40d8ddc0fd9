import PixelTree.Build
import PixelTree.Catalog.Standard
import PixelTree.Chase
import PixelTree.CommandLine.Failure
import PixelTree.CommandLine.Invocation
import PixelTree.Json.Printer

/-! What commands do. Everything that can be told beforehand is settled in a task; carrying it out
takes the services of the surroundings.
-/

namespace PixelTree.CommandLine

/-- What is left to do once a command is understood. -/
inductive Task where
  | print (text : String)
  /-- Look for supplies and print them, as JSON or for readers. -/
  | search (settings : Discovery.Settings) (json : Bool)
  /-- Show a chase on a tree, without end if no number of frames is given. -/
  | drive (tree : Node) (chase : Chase) (framesPerSecond : Nat) (frames : Option Nat)

def versionText : String := "pixelpipe 0.1.0\n"

/-- Lines, each ended by a line break. -/
def joinLines (lines : List String) : String :=
  String.join (lines.map (· ++ "\n"))

/-- A text with blanks behind it up to a width. -/
def padRight (width : Nat) (text : String) : String :=
  text ++ String.ofList (List.replicate (width - text.length) ' ')

def usage (entry : Entry) : String :=
  if entry.synopsis.isEmpty then entry.name else s!"{entry.name}:{entry.synopsis}"

/-- The line of a type: what it makes, how it is written, and what it is for. -/
def entryLine (entry : Entry) : String :=
  s!"{padRight 6 entry.kind.display} {padRight 36 (usage entry)} {entry.doc}"

def typesText (catalog : Catalog) : String :=
  joinLines (catalog.map entryLine)

/-- The canonical form of a tree and its number of pixels. -/
def treeText (tree : Node) : String :=
  joinLines [tree.describe, s!"{Numeral.decimal tree.count} pixels"]

def supplyLines (supply : Discovery.Supply) : List String :=
  let name := if supply.name.isEmpty then "unnamed" else supply.name
  let version := Numeral.decimal supply.kinetVersion.toNat
  let serial := Numeral.decimal supply.serial.toNat
  let heading :=
    s!"  - {name} ({supply.mac}) at {supply.ip.display} kinet v{version} serial {serial}"
  let portLine (port : Kinet.Port) :=
    s!"    port {Numeral.decimal port.number.toNat}: "
      ++ s!"{Numeral.decimal port.lights.toNat} lights"
  heading :: supply.ports.map portLine

/-- The lines of all supplies, and the descriptor for them if there are any. -/
def suppliesText (defaultCount : Nat) (supplies : List Discovery.Supply) : String :=
  joinLines
    (s!"Discovered {Numeral.decimal supplies.length} supplies:"
      :: supplies.flatMap supplyLines
      ++ (Discovery.Supply.descriptor? defaultCount supplies).toList)

def suppliesJson (supplies : List Discovery.Supply) : String :=
  joinLines [Json.pretty 0 (.array (supplies.map Discovery.Supply.toJson))]

/-- What surrounds a command before it is carried out. -/
structure Setting where
  /-- The path of the configuration. -/
  path : String
  configuration : Configuration
  /-- The descriptor that the environment names. -/
  ambient : Option String
  seeds : SeedSupply

namespace Setting

def tree (setting : Setting) (descriptor : String) : Except Failure Node :=
  (buildTree Catalog.standard setting.configuration.spacingTime setting.seeds
    descriptor).mapError .build

/-- The settings of a search: what the options give stands before the configuration. -/
def search (setting : Setting) (options : DiscoverOptions) : Discovery.Settings :=
  let base := setting.configuration.discovery
  { base with
    broadcast := options.broadcast <|> base.broadcast
    timeout := options.timeout.getD base.timeout
    enumerate := base.enumerate && options.skipPorts.isNone }

/-- The descriptor to drive: the options stand before the environment, and that before the
configuration. The first one given counts, and it must not be blank. -/
def descriptor (setting : Setting) (given : Option String) : Except Failure String :=
  match given <|> setting.ambient <|> setting.configuration.descriptor with
  | some descriptor =>
    if Text.isAllBlank descriptor.toList then throw (.noDescriptor setting.path)
    else return descriptor
  | none => throw (.noDescriptor setting.path)

/-- The color of the chase where no other one is given. -/
def defaultColor : String := "white"

def drive (setting : Setting) (options : RunOptions) : Except Failure Task := do
  let descriptor ← setting.descriptor options.descriptor
  let color ← (Color.parse (options.color.getD defaultColor)).mapError Failure.color
  let rate := options.framesPerSecond.getD setting.configuration.framesPerSecond
  if rate = 0 then throw .noRate
  return .drive (← setting.tree descriptor) (Chase.ofColor color) rate options.frames

def task (setting : Setting) : Command → Except Failure Task
  | .types => return .print (typesText Catalog.standard)
  | .describe descriptor => do return .print (treeText (← setting.tree descriptor))
  | .discover options => return .search (setting.search options) options.json.isSome
  | .run options => setting.drive options

end Setting

/-- Reads the configuration and settles the task of a command. -/
def prepare (path : String) (source : Configuration.Source) (ambient : Option String)
    (seeds : SeedSupply) (command : Command)
    : Except Failure Task := do
  let configuration ← (Configuration.load source).mapError (Failure.configuration path)
  Setting.task ⟨path, configuration, ambient, seeds⟩ command

namespace Task

variable {m : Type → Type} [Monad m]

/-- Carries a task out and returns what it prints. A chase without end stops when the frames
can no longer be counted in a word. -/
def perform (air : Discovery.Airwaves m) (around : Surroundings m)
    : Task → m (Except Failure String)
  | .print text => return .ok text
  | .search settings json => do
    match ← Discovery.scan air settings with
    | .error fault => return .error (.scan fault)
    | .ok supplies =>
      return .ok
        (if json then suppliesJson supplies else suppliesText settings.defaultCount supplies)
  | .drive tree chase framesPerSecond frames => do
    let _ ← chase.run around framesPerSecond (frames.getD Numeral.wordLimit) tree
    return .ok ""

end Task

end PixelTree.CommandLine
