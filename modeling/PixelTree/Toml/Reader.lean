import PixelTree.Toml.Number
import PixelTree.Toml.Table

/-! Reading TOML documents. -/

namespace PixelTree.Toml

open Text Text.Reader

namespace Reading

-----------------------------------------------------------------------------------------
-- Between tokens
-----------------------------------------------------------------------------------------

def comment : Reader Unit := do
  skip '#'
  let _ ← span isPlain

def gaps : Reader Unit :=
  loop (fun () => do
    blanks
    match ← peek? with
    | some '#' => do comment; lineBreak; return .inl ()
    | some '\n' | some '\r' => do lineBreak; return .inl ()
    | _ => return .inr ()) ()

/-- The end of a line, behind an optional comment. -/
def lineEnd : Reader Unit := do
  blanks
  if (← peek?) = some '#' then comment
  finish <|> lineBreak

-----------------------------------------------------------------------------------------
-- Keys
-----------------------------------------------------------------------------------------

/-- Holds for the characters of a name without quotes. -/
def isBare (c : Char) : Bool :=
  c.isAlphanum || c == '-' || c == '_'

def keyPart : Reader String := do
  match ← peek? with
  | some '"' => lineText '"'
  | some '\'' => lineText '\''
  | _ => do
    let first ← satisfying isBare
    return String.ofList (first :: (← span isBare))

/-- Keys have fewer parts than this, and values are nested less deep. -/
def depthLimit : Nat := 80

/-- Further parts of a key; the parts so far are held latest first. -/
def keyStep (key : Key) : Reader (Key ⊕ Key) := do
  blanks
  if ← takes ['.'] then do
    blanks
    return .inl ⟨key.parents ++ [key.name], ← keyPart⟩
  else return .inr key

/-- A key with the blanks around it. -/
def key : Reader Key := do
  blanks
  let found ← loop keyStep ⟨[], ← keyPart⟩
  if found.parts.length < depthLimit then return found else failure

-----------------------------------------------------------------------------------------
-- Values
-----------------------------------------------------------------------------------------

/-- Items of an array up to its closing bracket, latest first. A comma may follow the last
one. -/
def itemStep (item : Reader Value) (items : List Value)
    : Reader (List Value ⊕ List Value) := do
  let found ← item
  gaps
  match ← next with
  | ']' => return .inr (found :: items).reverse
  | ',' => do
    gaps
    if ← takes [']'] then return .inr (found :: items).reverse
    else return .inl (found :: items)
  | _ => failure

def array (item : Reader Value) : Reader Value := do
  skip '['
  gaps
  if ← takes [']'] then return .array []
  return .array (← loop (itemStep item) [])

def pair (item : Reader Value) : Reader (Key × Value) := do
  let key ← key
  skip '='
  blanks
  return (key, ← item)

/-- Pairs up to the closing brace, latest first. -/
def pairStep (item : Reader Value) (pairs : List (Key × Value))
    : Reader (List (Key × Value) ⊕ List (Key × Value)) := do
  let found ← pair item
  blanks
  match ← next with
  | '}' => return .inr (found :: pairs).reverse
  | ',' => return .inl (found :: pairs)
  | _ => failure

def closedTable (item : Reader Value) : Reader Value := do
  skip '{'
  blanks
  let pairs ← if ← takes ['}'] then pure [] else loop (pairStep item) []
  let some members := Members.ofPairs .closed pairs | failure
  return .table .closed members

/-- A value that holds no other ones. -/
def scalar : Reader Value := do
  match ← peek? with
  | some '"' => return .text (← quotedText '"')
  | some '\'' => return .text (← quotedText '\'')
  | some 't' => do skipAll "true".toList; return .boolean true
  | some 'f' => do skipAll "false".toList; return .boolean false
  | _ => number

/-- A value that holds others nested at most `depth` deep. -/
def value : Nat → Reader Value
  | 0 => scalar
  | depth + 1 => do
    match ← peek? with
    | some '[' => array (value depth)
    | some '{' => closedTable (value depth)
    | _ => scalar

-----------------------------------------------------------------------------------------
-- Lines
-----------------------------------------------------------------------------------------

/-- A line that is not blank and no comment. -/
def line : Reader Line := do
  if ← takes ['[', '['] then do
    let key ← key
    skipAll [']', ']']
    return .doubleHeader key
  else if ← takes ['['] then do
    let key ← key
    skip ']'
    return .header key
  else do
    let (key, value) ← pair (value (depthLimit - 1))
    return .pair key value

/-- Skips empty lines and comments, the last of which may end the text. -/
def emptyLines : Reader Unit :=
  loop (fun () => do
    blanks
    match ← peek? with
    | some '#' | some '\n' | some '\r' => do lineEnd; return .inl ()
    | _ => return .inr ()) ()

/-- Lines up to the end of the text, latest first. -/
def documentStep (lines : List Line) : Reader (List Line ⊕ List Line) := do
  emptyLines
  if (← peek?).isNone then return .inr lines.reverse
  let found ← line
  lineEnd
  return .inl (found :: lines)

end Reading

/-- The table of a document. A byte order mark in front of it is left out. -/
def parse? (s : String) : Option Value := do
  let lines ← readAll? (do
    let _ ← takes ['\ufeff']
    loop Reading.documentStep []) s
  return .table .header (← assemble lines)

end PixelTree.Toml
