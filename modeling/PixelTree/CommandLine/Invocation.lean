import PixelTree.CommandLine.Grammar
import PixelTree.Net.Ipv4

/-! The commands and what their arguments settle. Two options stand before a command or behind its
name; the value behind it counts.
-/

namespace PixelTree.CommandLine

-----------------------------------------------------------------------------------------
-- Commands
-----------------------------------------------------------------------------------------

/-- What is given for looking for supplies. -/
structure DiscoverOptions where
  broadcast : Option Net.Ipv4
  timeout : Option Nat
  /-- Supplies are not asked for their ports. -/
  skipPorts : Option Unit
  /-- The result is printed as JSON. -/
  json : Option Unit
deriving DecidableEq

/-- What is given for driving a tree. -/
structure RunOptions where
  descriptor : Option String
  framesPerSecond : Option Nat
  frames : Option Nat
  color : Option String
deriving DecidableEq

/-- What is to be done. -/
inductive Command where
  /-- Lists the types of devices and filters. -/
  | types
  /-- Prints the canonical form of a descriptor. -/
  | describe (descriptor : String)
  | discover (options : DiscoverOptions)
  | run (options : RunOptions)
deriving DecidableEq

/-- The options of every command. -/
structure CommonOptions where
  configuration : Option String
  logLevel : Option String
deriving DecidableEq

namespace CommonOptions

def none : CommonOptions := ⟨.none, .none⟩

def orElse (here there : CommonOptions) : CommonOptions :=
  ⟨here.configuration <|> there.configuration, here.logLevel <|> there.logLevel⟩

/-- The file name of the configuration where no other one is given. -/
def defaultConfiguration : String := "pixelpipe.toml"

/-- The place of the configuration, which is never empty. -/
def setConfiguration (path : String) (options : CommonOptions) : Option CommonOptions := do
  if path.isEmpty then failure
  return { options with configuration := ← once options.configuration path }

/-- The switches of every command. -/
def switches : List (Switch CommonOptions) :=
  [ ⟨"config", some 'c', .value setConfiguration⟩,
    ⟨"log-level", some 'l', .value fun level options => do
      return { options with logLevel := ← once options.logLevel level }⟩ ]

end CommonOptions

-----------------------------------------------------------------------------------------
-- Grammars
-----------------------------------------------------------------------------------------

/-- The switches of a command next to those of every command. -/
def commandGrammar {σ : Type} (switches : List (Switch σ)) (plain : String → σ → Option σ)
    : Grammar (CommonOptions × σ) where
  switches :=
    CommonOptions.switches.map (Switch.on Prod.fst (fun options state => (options, state.2)))
      ++ switches.map (Switch.on Prod.snd (fun found state => (state.1, found)))
  plain text state := (plain text state.2).map (state.1, ·)

/-- No plain argument is taken. -/
def noPlain {σ : Type} (_ : String) (_ : σ) : Option σ := none

def readCommand {σ : Type} (switches : List (Switch σ)) (plain : String → σ → Option σ)
    (empty : σ) (arguments : List String)
    : Option (CommonOptions × σ) :=
  (commandGrammar switches plain).read (CommonOptions.none, empty) arguments

def rate? (text : String) : Option Nat :=
  match Numeral.signed? text with
  | some (.ofNat n) => if n < UInt32.size then some n else none
  | _ => none

def discoverSwitches : List (Switch DiscoverOptions) :=
  [ ⟨"broadcast", none, .value fun text options => do
      return { options with
        broadcast := ← once options.broadcast (← Net.Ipv4.parse? text) }⟩,
    ⟨"timeout-ms", none, .value fun text options => do
      return { options with timeout := ← once options.timeout (← Numeral.word? text) }⟩,
    ⟨"no-enumerate", none, .flag fun options => do
      return { options with skipPorts := ← once options.skipPorts () }⟩,
    ⟨"json", none, .flag fun options => do
      return { options with json := ← once options.json () }⟩ ]

def runSwitches : List (Switch RunOptions) :=
  [ ⟨"descriptor", some 'd', .value fun text options => do
      return { options with descriptor := ← once options.descriptor text }⟩,
    ⟨"fps", none, .value fun text options => do
      return { options with
        framesPerSecond := ← once options.framesPerSecond (← rate? text) }⟩,
    ⟨"frames", none, .value fun text options => do
      return { options with frames := ← once options.frames (← Numeral.word? text) }⟩,
    ⟨"color", none, .value fun text options => do
      return { options with color := ← once options.color text }⟩ ]

def commandOf? (name : String) (arguments : List String)
    : Option (CommonOptions × Command) := do
  match name with
  | "types" =>
    let (common, ()) ← readCommand [] noPlain () arguments
    return (common, .types)
  | "describe" =>
    let (common, descriptor) ←
      readCommand [] (fun text found => once found text) none arguments
    return (common, .describe (← descriptor))
  | "discover" =>
    let (common, options) ←
      readCommand discoverSwitches noPlain ⟨none, none, none, none⟩ arguments
    return (common, .discover options)
  | "run" =>
    let (common, options) ←
      readCommand runSwitches noPlain ⟨none, none, none, none⟩ arguments
    return (common, .run options)
  | _ => failure

-----------------------------------------------------------------------------------------
-- Invocations
-----------------------------------------------------------------------------------------

/-- What the arguments ask for. -/
inductive Invocation where
  | version
  | command (configuration : String) (command : Command)
  /-- The arguments make no sense. -/
  | misused
deriving DecidableEq

namespace Invocation

/-- A command with the options before it. -/
def ofCommand (before : CommonOptions) (name : String) (arguments : List String)
    : Invocation :=
  match commandOf? name arguments with
  | none => .misused
  | some (common, found) =>
    let path := (common.orElse before).configuration
    .command (path.getD CommonOptions.defaultConfiguration) found

/-- The options before a command. -/
def leading : Grammar CommonOptions :=
  ⟨CommonOptions.switches, noPlain⟩

/-- Reads the options before the command; a question for the version is answered at once. -/
def readFrom (stage : Stage CommonOptions) : List String → Invocation
  | [] => .misused
  | argument :: rest =>
    match stage, Token.ofArgument argument with
    | .ready before, .plain name => ofCommand before name rest
    | .ready _, .long "version" none => .version
    | .ready _, .short 'V' _ => .version
    | stage, _ => (leading.step stage argument).elim .misused (readFrom · rest)

def ofArguments (arguments : List String) : Invocation :=
  readFrom (.ready CommonOptions.none) arguments

end Invocation

end PixelTree.CommandLine
