import PixelTree.Json.Value
import PixelTree.Numeral
import PixelTree.Text.Reader

/-! Reading JSON texts. -/

namespace PixelTree.Json

open Text Text.Reader

/-- A value whose texts may be missing. -/
abbrev Found := Json (Option String)

namespace Reading

def isBlank (c : Char) : Bool :=
  c == ' ' || c == '\n' || c == '\t' || c == '\r'

def blanks : Reader Unit := do
  let _ ← span isBlank

/-- One element of a text: a character, or a number of 16 bits that is escaped. -/
inductive Unit16 where
  | char (c : Char)
  | escaped (number : Nat)

def hex4 : Reader Nat := do
  [0, 1, 2, 3].foldlM (fun value _ => do
    let some digit := Numeral.hexValue? (← next) | failure
    return 16 * value + digit) 0

def escape : Reader Unit16 := do
  match ← next with
  | '"' => return .char '"'
  | '\\' => return .char '\\'
  | '/' => return .char '/'
  | 'b' => return .char '\x08'
  | 'f' => return .char '\x0c'
  | 'n' => return .char '\n'
  | 'r' => return .char '\r'
  | 't' => return .char '\t'
  | 'u' => return .escaped (← hex4)
  | _ => failure

/-- The rest of a text up to its closing quote, latest element first. -/
def textStep (units : List Unit16) : Reader (List Unit16 ⊕ List Unit16) := do
  match ← next with
  | '"' => return .inr units.reverse
  | '\\' => return .inl ((← escape) :: units)
  | c => if c.toNat < 0x20 then failure else return .inl (.char c :: units)

/-- The characters of some elements. An escaped number above the basic plane is written as a
pair; half of a pair stands for no character. -/
def assemble : List Unit16 → Option (List Char)
  | [] => some []
  | .char c :: rest => (assemble rest).map (c :: ·)
  | .escaped high :: .escaped low :: rest =>
    if 0xD800 ≤ high ∧ high < 0xDC00 then
      if 0xDC00 ≤ low ∧ low < 0xE000 then
        let point := 0x10000 + (high - 0xD800) * 0x400 + (low - 0xDC00)
        (assemble rest).map (Char.ofNat point :: ·)
      else none
    else if 0xDC00 ≤ high ∧ high < 0xE000 then none
    else (assemble (.escaped low :: rest)).map (Char.ofNat high :: ·)
  | .escaped unit :: rest =>
    if 0xD800 ≤ unit ∧ unit < 0xE000 then none
    else (assemble rest).map (Char.ofNat unit :: ·)

/-- A text behind its opening quote. -/
def text : Reader (Option String) := do
  return (assemble (← loop textStep [])).map String.ofList

/-- At least one digit. -/
def digits : Reader (List Char) := do
  let first ← satisfying Char.isDigit
  return first :: (← span Char.isDigit)

/-- The digits before the point; a zero stands alone. -/
def whole : Reader (List Char) := do
  if ← takes ['0'] then return ['0'] else digits

/-- The part behind the point, if there is one. -/
def fraction : Reader (List Char) := do
  if ← takes ['.'] then return '.' :: (← digits) else return []

def exponent : Reader (List Char) := do
  match ← peek? with
  | some 'e' | some 'E' => do
    let _ ← next
    let sign ← span (fun c => c == '+' || c == '-')
    if 1 < sign.length then failure
    return 'e' :: sign ++ (← digits)
  | _ => return []

def number : Reader String := do
  let sign := if ← takes ['-'] then ['-'] else []
  let whole ← whole
  let fraction ← fraction
  let exponent ← exponent
  return String.ofList (sign ++ whole ++ fraction ++ exponent)

/-- What follows a part of an array or an object: a comma in front of more parts, or the closing
bracket. The parts come latest first. -/
def partEnd {τ : Type} (closing : Char) (parts : List τ) : Reader (List τ ⊕ List τ) := do
  blanks
  match ← next with
  | ',' => return .inl parts
  | c => if c = closing then return .inr parts.reverse else failure

/-- Members of an array up to its closing bracket, latest first. -/
def itemStep (item : Reader Found) (items : List Found)
    : Reader (List Found ⊕ List Found) := do
  let found ← item
  partEnd ']' (found :: items)

/-- Members of an object up to its closing brace, latest first. -/
def memberStep (item : Reader Found) (members : List (Option String × Found))
    : Reader (List (Option String × Found) ⊕ List (Option String × Found)) := do
  blanks
  skip '"'
  let key ← text
  blanks
  skip ':'
  let found ← item
  partEnd '}' ((key, found) :: members)

/-- The parts of an array or an object behind its opening bracket. -/
def parts {τ : Type} (closing : Char) (step : List τ → Reader (List τ ⊕ List τ))
    : Reader (List τ) := do
  blanks
  if ← takes [closing] then return []
  loop step []

/-- A value by its first character, from a reader of the values inside of it. -/
def valueFrom (item : Reader Found) : Option Char → Reader Found
  | some 'n' => do skipAll "null".toList; return .null
  | some 't' => do skipAll "true".toList; return .boolean true
  | some 'f' => do skipAll "false".toList; return .boolean false
  | some '"' => do skip '"'; return .text (← text)
  | some '[' => do skip '['; return .array (← parts ']' (itemStep item))
  | some '{' => do skip '{'; return .object (← parts '}' (memberStep item))
  | _ => return .number (← number)

/-- A value; the fuel bounds how deep values are nested. -/
def value : Nat → Reader Found
  | 0 => failure
  | fuel + 1 => do
    blanks
    valueFrom (value fuel) (← peek?)

end Reading

/-- The value of a whole text. -/
def parse? (s : String) : Option Found :=
  readAll? (do
    let found ← Reading.value (s.length + 1)
    Reading.blanks
    return found) s

-----------------------------------------------------------------------------------------
-- Fields
-----------------------------------------------------------------------------------------

/-- A natural number below a limit, written without point and exponent. -/
def toNatural? (limit : Nat) : Found → Option Nat
  | .number literal => Numeral.natural? limit literal
  | _ => none

def toText? : Found → Option String
  | .text value => value
  | _ => none

def toBoolean? : Found → Option Bool
  | .boolean value => some value
  | _ => none

/-- The members of an array, each of them read. -/
def toList? {α : Type} (item? : Found → Option α) : Found → Option (List α)
  | .array items => items.mapM item?
  | _ => none

/-- The values of some fields, each missing where it is not given. An object names its fields,
of which unknown ones are passed over, and none of them twice; an array holds the values in
order. -/
def fields? (names : List String) : Found → Option (List (Option Found))
  | .array items =>
    if names.length < items.length then none
    else some (items.map some ++ List.replicate (names.length - items.length) none)
  | .object members => do
    let keyed ← members.mapM (fun member => member.1.map (·, member.2))
    names.mapM (fun name =>
      match keyed.filter (fun member => member.1 == name) with
      | [] => some none
      | [member] => some (some member.2)
      | _ => none)
  | _ => none

end PixelTree.Json
