import PixelTree.Json.Value
import PixelTree.Numeral

/-! Writing JSON texts over several lines, two spaces deeper for each level. -/

namespace PixelTree.Json

def escapeChar (c : Char) : List Char :=
  if c = '"' then ['\\', '"']
  else if c = '\\' then ['\\', '\\']
  else if c = '\x08' then ['\\', 'b']
  else if c = '\x0c' then ['\\', 'f']
  else if c = '\n' then ['\\', 'n']
  else if c = '\r' then ['\\', 'r']
  else if c = '\t' then ['\\', 't']
  else if c.toNat < 0x20 then ['\\', 'u', '0', '0'] ++ Numeral.hexByte (UInt8.ofNat c.toNat)
  else [c]

def quoted (s : String) : String :=
  String.ofList ('"' :: s.toList.flatMap escapeChar ++ ['"'])

def lineBreak (level : Nat) : String :=
  "\n" ++ String.ofList (List.replicate (2 * level) ' ')

def bracketed (opening closing : String) (level : Nat) (parts : List String) : String :=
  if parts.isEmpty then opening ++ closing
  else
    let inner := lineBreak (level + 1)
    opening ++ inner ++ ("," ++ inner).intercalate parts ++ lineBreak level ++ closing

mutual
def pretty (level : Nat) : Json String → String
  | .null => "null"
  | .boolean value => if value then "true" else "false"
  | .number literal => literal
  | .text value => quoted value
  | .array items => bracketed "[" "]" level (prettyItems (level + 1) items)
  | .object members =>
    bracketed "\x7b" "\x7d" level (prettyMembers (level + 1) members)

def prettyItems (level : Nat) : List (Json String) → List String
  | [] => []
  | item :: rest => pretty level item :: prettyItems level rest

def prettyMembers (level : Nat) : List (String × Json String) → List String
  | [] => []
  | (key, value) :: rest =>
    (quoted key ++ ": " ++ pretty level value) :: prettyMembers level rest
end

end PixelTree.Json
