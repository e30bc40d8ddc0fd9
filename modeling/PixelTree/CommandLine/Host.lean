import PixelTree.CommandLine.Task

/-! The command line as a whole, written for every host that offers what the commands need. -/

namespace PixelTree.CommandLine

/-- What a host offers. -/
structure Host (m : Type → Type) where
  air : Discovery.Airwaves m
  around : Surroundings m
  /-- What stands at a path. -/
  source : String → m Configuration.Source
  /-- The descriptor that the environment names. -/
  ambient : m (Option String)
  seeds : m SeedSupply

/-- How a command ends: what it prints, how it reports a failure, and its exit code. -/
structure Ending where
  output : String
  report : Option String
  code : UInt8
deriving DecidableEq

namespace Ending

def ofOutput (output : String) : Ending :=
  ⟨output, none, 0⟩

def ofFailure (failure : Failure) : Ending :=
  ⟨"", some failure.report, 1⟩

/-- Arguments that make no sense. -/
def misuse : Ending :=
  ⟨"", none, 2⟩

def ofResult : Except Failure String → Ending
  | .ok output => ofOutput output
  | .error failure => ofFailure failure

end Ending

namespace Host

variable {m : Type → Type} [Monad m]

def carryOut (host : Host m) (path : String) (command : Command)
    : m (Except Failure String) := do
  let source ← host.source path
  match prepare path source (← host.ambient) (← host.seeds) command with
  | .error failure => return .error failure
  | .ok task => task.perform host.air host.around

def run (host : Host m) (arguments : List String) : m Ending := do
  match Invocation.ofArguments arguments with
  | .version => return .ofOutput versionText
  | .misused => return .misuse
  | .command path command => return .ofResult (← host.carryOut path command)

end Host

end PixelTree.CommandLine
