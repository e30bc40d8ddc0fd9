/-! Reading the arguments of a command: options with values, flags, and plain arguments, in any
order. An option stands before its value or holds it; no option is given twice.
-/

namespace PixelTree.CommandLine

/-- What one argument is by its form. -/
inductive Token where
  /-- Two dashes: all arguments behind them are plain. -/
  | escape
  /-- A long name, and the value that it holds, if any. -/
  | long (name : String) (value : Option String)
  /-- A letter, and what is written right behind it. -/
  | short (letter : Char) (rest : List Char)
  | plain (text : String)
deriving DecidableEq

namespace Token

/-- A long name with an optional value behind an equals sign. -/
def ofLong (cs : List Char) : Token :=
  let name := String.ofList (cs.takeWhile (· != '='))
  match cs.dropWhile (· != '=') with
  | [] => .long name none
  | _ :: value => .long name (some (String.ofList value))

/-- The token of an argument. A dash alone is plain. -/
def ofArgument (argument : String) : Token :=
  match argument.toList with
  | ['-', '-'] => .escape
  | '-' :: '-' :: cs => ofLong cs
  | '-' :: letter :: rest => .short letter rest
  | _ => .plain argument

def toPlain? : Token → Option String
  | .plain text => some text
  | _ => none

end Token

/-- What a switch does to what was read so far. It may refuse. -/
inductive Action (σ : Type) where
  | flag (apply : σ → Option σ)
  | value (apply : String → σ → Option σ)

/-- A flag or an option. -/
structure Switch (σ : Type) where
  long : String
  letter : Option Char
  action : Action σ

/-- Keeps a value in a place that is still empty. -/
def once {α : Type} (place : Option α) (value : α) : Option (Option α) :=
  match place with
  | none => some (some value)
  | some _ => none

def Switch.on {σ τ : Type} (get : τ → σ) (put : σ → τ → τ) (switch : Switch σ) : Switch τ :=
  let action :=
    match switch.action with
    | .flag apply => .flag (fun state => (apply (get state)).map (put · state))
    | .value apply => .value (fun text state => (apply text (get state)).map (put · state))
  ⟨switch.long, switch.letter, action⟩

/-- The switches of a command, and what it does with plain arguments. -/
structure Grammar (σ : Type) where
  switches : List (Switch σ)
  plain : String → σ → Option σ

/-- How far the arguments are read. -/
inductive Stage (σ : Type) where
  | ready (state : σ)
  /-- The next argument has to be a value. -/
  | awaiting (apply : String → Option σ)
  /-- Behind two dashes. -/
  | escaped (state : σ)

namespace Grammar

variable {σ : Type}

/-- Takes a switch: a flag has no value, and an option holds its value or awaits it. -/
def take (action : Action σ) (value : Option String) (state : σ) : Option (Stage σ) :=
  match action, value with
  | .flag apply, none => (apply state).map .ready
  | .flag _, some _ => none
  | .value apply, some text => (apply text state).map .ready
  | .value apply, none => some (.awaiting (apply · state))

/-- The value written behind a letter, an equals sign before it left out. -/
def behindLetter : List Char → Option String
  | [] => none
  | '=' :: value => some (String.ofList value)
  | value => some (String.ofList value)

/-- Reads a token where no value is awaited. -/
def accept (grammar : Grammar σ) (state : σ) : Token → Option (Stage σ)
  | .escape => some (.escaped state)
  | .plain text => (grammar.plain text state).map .ready
  | .long name value => do
    let switch ← grammar.switches.find? (·.long == name)
    take switch.action value state
  | .short letter rest => do
    let switch ← grammar.switches.find? (·.letter == some letter)
    take switch.action (behindLetter rest) state

def step (grammar : Grammar σ) : Stage σ → String → Option (Stage σ)
  | .ready state, argument => grammar.accept state (Token.ofArgument argument)
  | .awaiting apply, argument => do
    return .ready (← apply (← (Token.ofArgument argument).toPlain?))
  | .escaped state, argument => (grammar.plain argument state).map .escaped

/-- What was read, unless a value is still awaited. -/
def finish : Stage σ → Option σ
  | .ready state => some state
  | .awaiting _ => none
  | .escaped state => some state

def read (grammar : Grammar σ) (state : σ) (arguments : List String) : Option σ := do
  finish (← arguments.foldlM grammar.step (.ready state))

end Grammar

end PixelTree.CommandLine
