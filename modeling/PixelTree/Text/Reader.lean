/-! Readers: programs that take characters off the front of a text and may give up. -/

namespace PixelTree.Text

/-- A reader of values; the state is the text that is left. -/
abbrev Reader := StateT (List Char) Option

namespace Reader

variable {α σ : Type}

def peek? : Reader (Option Char) := do
  return (← get).head?

def next : Reader Char := fun
  | [] => none
  | c :: rest => some (c, rest)

def satisfying (p : Char → Bool) : Reader Char := do
  let c ← next
  if p c then return c else failure

def skip (c : Char) : Reader Unit := do
  let _ ← satisfying (· == c)

def skipAll (cs : List Char) : Reader Unit := do
  cs.forM skip

def span (p : Char → Bool) : Reader (List Char) := fun cs =>
  some (cs.takeWhile p, cs.dropWhile p)

/-- Whether the text goes on with a row of characters. -/
def startsWith (cs : List Char) : Reader Bool := do
  return cs.isPrefixOf (← get)

/-- Takes a row of characters off if the text goes on with it. -/
def takes (cs : List Char) : Reader Bool := do
  if ← startsWith cs then
    set ((← get).drop cs.length)
    return true
  else return false

/-- What a reader finds, or nothing if it gives up, in which case no character is taken. -/
def optional? (reader : Reader α) : Reader (Option α) := fun cs =>
  match reader cs with
  | some (value, rest) => some (some value, rest)
  | none => some (none, cs)

def finish : Reader Unit := do
  if (← get).isEmpty then return () else failure

/-- Repeats a step until it has a value, at most once for each character of a bound. -/
def repeated (step : σ → Reader (σ ⊕ α)) : List Char → σ → Reader α
  | [], _ => failure
  | _ :: bound, state => do
    match ← step state with
    | .inl state => repeated step bound state
    | .inr value => return value

/-- Repeats a step that takes at least one character until it has a value. The characters that
are left bound the number of these steps; the last one may take none. -/
def loop (step : σ → Reader (σ ⊕ α)) (state : σ) : Reader α := do
  repeated step (' ' :: (← get)) state

/-- The value of a whole text. -/
def readAll? (reader : Reader α) (s : String) : Option α :=
  match (do let value ← reader; finish; return value : Reader α) s.toList with
  | some (value, _) => some value
  | none => none

end Reader

end PixelTree.Text
