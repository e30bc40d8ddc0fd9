import PixelTree.Net.Ipv4
import PixelTree.Text.Blank

/-! Where one string of lights lives on the network, and its text `ip[/port][(count)]`. -/

namespace PixelTree.Kinet

/-- Which frame packet a supply understands. -/
inductive Protocol where
  /-- One logical output for the whole supply. -/
  | v1
  /-- Outputs that are addressed one by one. -/
  | v2
deriving DecidableEq

def Protocol.number : Protocol → Nat
  | .v1 => 1
  | .v2 => 2

def Protocol.display (protocol : Protocol) : String :=
  "v" ++ Numeral.decimal protocol.number

/-- A string of lights: its supply, its output there, and its number of pixels. -/
structure Address where
  ip : Net.Ipv4
  protocol : Protocol
  /-- The output of the supply, zero for version 1. -/
  port : UInt8
  count : Nat
  dmxUniverse : UInt32
deriving DecidableEq

namespace Address

/-- The number of pixels of a text that names none. -/
def defaultCount : Nat := 50

/-- The most pixels that a text may name. -/
def maxCount : Nat := 256

/-- A string of lights that takes up a whole supply. -/
def whole (ip : Net.Ipv4) (count : Nat) : Address :=
  ⟨ip, .v1, 0, count, 0⟩

def output (ip : Net.Ipv4) (port : UInt8) (count : Nat) : Address :=
  ⟨ip, .v2, port, count, 0⟩

/-- The text of an address. Its universe has no place in it. -/
def display (address : Address) : String :=
  let count := Numeral.decimal address.count
  match address.protocol with
  | .v1 => s!"{address.ip.display}({count})"
  | .v2 => s!"{address.ip.display}/{Numeral.decimal address.port.toNat}({count})"

/-- What is wrong with the text of an address. -/
inductive Fault where
  | unbalanced
  | unclosed
  | ip (text : String)
  | port (text : String)
  | count (text : String)
deriving DecidableEq

def Fault.message : Fault → String
  | .unbalanced => "unbalanced ')'"
  | .unclosed => "missing ')'"
  | .ip text => s!"bad IPv4 address '{text}'"
  | .port text => s!"bad port '{text}'"
  | .count text => s!"count '{text}' must be 1-{Numeral.decimal maxCount}"

/-- A text that is no address, and what is wrong with it. -/
structure ParseError where
  input : String
  fault : Fault
deriving DecidableEq

def ParseError.message (error : ParseError) : String :=
  s!"Invalid device '{error.input}': {error.fault.message}"

/-- The characters before and after the last occurrence of one. -/
def splitLast? (c : Char) (cs : List Char) : Option (List Char × List Char) :=
  let back := cs.reverse
  match back.dropWhile (· != c) with
  | [] => none
  | _ :: front => some (front.reverse, (back.takeWhile (· != c)).reverse)

/-- The characters before and after the first occurrence of one. -/
def splitFirst? (c : Char) (cs : List Char) : Option (List Char × List Char) :=
  match cs.dropWhile (· != c) with
  | [] => none
  | _ :: rest => some (cs.takeWhile (· != c), rest)

/-- A number within bounds, blanks around it ignored. -/
def bounded? (least most : Nat) (cs : List Char) : Option Nat :=
  (Numeral.word? (String.ofList (Text.trimChars cs))).filter
    (fun n => least ≤ n && n ≤ most)

def parseCount (cs : List Char) : Except Fault Nat :=
  (bounded? 1 maxCount cs).elim (throw (.count (String.ofList cs))) pure

/-- Takes the count part off; without one the count is the default. -/
def takeCount (cs : List Char) : Except Fault (List Char × Nat) :=
  if cs.getLast? = some ')' then
    match splitLast? '(' cs.dropLast with
    | none => throw .unbalanced
    | some (rest, count) => do return (rest, ← parseCount count)
  else if cs.contains '(' then throw .unclosed
  else return (cs, defaultCount)

def parseIp (cs : List Char) : Except Fault Net.Ipv4 :=
  (Net.Ipv4.parse? (String.ofList (Text.trimChars cs))).elim
    (throw (.ip (String.ofList cs))) pure

def parsePort (cs : List Char) : Except Fault UInt8 :=
  (bounded? 1 255 cs).elim (throw (.port (String.ofList cs)))
    (fun n => pure (UInt8.ofNat n))

/-- Reads an address without blanks at its ends: the count first, then the network part, then
the port. An address with a port is of version 2. -/
def parseChars (cs : List Char) : Except Fault Address := do
  let (rest, count) ← takeCount cs
  match splitFirst? '/' rest with
  | none => return whole (← parseIp rest) count
  | some (ip, port) =>
    let ip ← parseIp ip
    return output ip (← parsePort port) count

def parse (input : String) : Except ParseError Address :=
  (parseChars (Text.trimChars input.toList)).mapError (ParseError.mk input)

end Address

end PixelTree.Kinet
