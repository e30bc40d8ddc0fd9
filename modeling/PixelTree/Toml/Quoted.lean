import PixelTree.Numeral
import PixelTree.Text.Reader

/-! Texts between quotes in TOML. Between double quotes a backslash escapes; between single quotes
everything is plain. Three quotes enclose a text of several lines.
-/

namespace PixelTree.Toml.Reading

open Text Text.Reader

def isBlank (c : Char) : Bool :=
  c == ' ' || c == '\t'

def blanks : Reader Unit := do
  let _ ← span isBlank

def lineBreak : Reader Unit := do
  let _ ← takes ['\r']
  skip '\n'

/-- Holds for the characters that may stand in a comment: all but the control characters. -/
def isPlain (c : Char) : Bool :=
  c == '\t' || (0x20 ≤ c.toNat && c.toNat != 0x7F)

/-- A character given by its number in a fixed number of hexadecimal digits. -/
def escapedNumber (width : Nat) : Reader Char := do
  let number ← (List.range width).foldlM (fun value _ => do
    let some digit := Numeral.hexValue? (← next) | failure
    return 16 * value + digit) 0
  if number.isValidChar then return Char.ofNat number else failure

def escape : Reader Char := do
  match ← next with
  | 'b' => return '\x08'
  | 't' => return '\t'
  | 'n' => return '\n'
  | 'f' => return '\x0c'
  | 'r' => return '\r'
  | '"' => return '"'
  | '\\' => return '\\'
  | 'u' => escapedNumber 4
  | 'U' => escapedNumber 8
  | _ => failure

/-- Whether a backslash escapes between quotes of a kind. -/
def escapes (quote : Char) : Bool :=
  quote == '"'

/-- Characters of a text up to its closing quote, latest first. -/
def lineStep (quote : Char) (cs : List Char) : Reader (List Char ⊕ List Char) := do
  let c ← next
  if c = quote then return .inr cs.reverse
  if c = '\\' ∧ escapes quote then return .inl ((← escape) :: cs)
  if isPlain c then return .inl (c :: cs) else failure

def lineText (quote : Char) : Reader String := do
  skip quote
  return String.ofList (← loop (lineStep quote) [])

/-- Skips a backslash at the end of a line together with all blanks and line breaks that
follow. -/
def joinLines : Reader Unit := do
  skip '\\'
  blanks
  lineBreak
  loop (fun () => do
    match ← peek? with
    | some '\n' | some '\r' => do lineBreak; return .inl ()
    | some c => if isBlank c then do blanks; return .inl () else return .inr ()
    | none => return .inr ()) ()

/-- Quotes within a text of several lines: up to two belong to the text, and so do up to two
before the three that close it. -/
def quotesStep (quote : Char) (cs : List Char) : Reader (List Char ⊕ List Char) := do
  let count := ((← get).takeWhile (· == quote)).length
  let added := if count < 3 then count else min (count - 3) 2
  let taken := if count < 3 then count else added + 3
  set ((← get).drop taken)
  let cs := List.replicate added quote ++ cs
  if count < 3 then return .inl cs else return .inr cs.reverse

/-- Characters of a text of several lines up to its closing quotes, latest first. -/
def linesStep (quote : Char) (cs : List Char) : Reader (List Char ⊕ List Char) := do
  let some c ← peek? | failure
  if c = quote then quotesStep quote cs
  else if c = '\\' ∧ escapes quote then do
    match ← optional? joinLines with
    | some () => return .inl cs
    | none => do
      skip '\\'
      return .inl ((← escape) :: cs)
  else if c = '\n' ∨ c = '\r' then do
    lineBreak
    return .inl ('\n' :: cs)
  else do return .inl ((← satisfying isPlain) :: cs)

/-- A text of several lines. A line break right behind the opening quotes is left out. -/
def linesText (quote : Char) : Reader String := do
  skipAll [quote, quote, quote]
  let _ ← optional? lineBreak
  return String.ofList (← loop (linesStep quote) [])

def quotedText (quote : Char) : Reader String := do
  if ← startsWith [quote, quote, quote] then linesText quote else lineText quote

end PixelTree.Toml.Reading
