import PixelTree.Numeral

/-! IPv4 addresses, their dotted form, and the broadcast address of a subnet. -/

namespace PixelTree.Net

/-- An address of four octets. -/
structure Ipv4 where
  a : UInt8
  b : UInt8
  c : UInt8
  d : UInt8
deriving DecidableEq

namespace Ipv4

/-- The four octets, highest first. -/
def octets (ip : Ipv4) : List UInt8 :=
  [ip.a, ip.b, ip.c, ip.d]

/-- The address that stands for every host of the local network. -/
def limitedBroadcast : Ipv4 := ⟨255, 255, 255, 255⟩

def octetText (octet : UInt8) : String :=
  Numeral.decimal octet.toNat

def display (ip : Ipv4) : String :=
  s!"{octetText ip.a}.{octetText ip.b}.{octetText ip.c}.{octetText ip.d}"

/-- Cuts at every point. -/
def splitPoints : List Char → List (List Char)
  | [] => [[]]
  | c :: rest =>
    match splitPoints rest with
    | [] => [[c]]
    | part :: parts => if c = '.' then [] :: part :: parts else (c :: part) :: parts

/-- Reads an octet of at most three digits without a leading zero. -/
def octet? (cs : List Char) : Option UInt8 :=
  if 3 < cs.length ∨ (1 < cs.length ∧ cs.head? = some '0') then none
  else ((Numeral.digits? cs).filter (· < 256)).map UInt8.ofNat

def parse? (s : String) : Option Ipv4 :=
  match splitPoints s.toList with
  | [a, b, c, d] => do
    let a ← octet? a
    let b ← octet? b
    let c ← octet? c
    let d ← octet? d
    return ⟨a, b, c, d⟩
  | _ => none

/-- The address as one word, the first octet highest. -/
def toWord (ip : Ipv4) : UInt32 :=
  (ip.a.toUInt32 <<< 24) ||| (ip.b.toUInt32 <<< 16) ||| (ip.c.toUInt32 <<< 8)
    ||| ip.d.toUInt32

def ofWord (word : UInt32) : Ipv4 :=
  ⟨(word >>> 24).toUInt8, (word >>> 16).toUInt8, (word >>> 8).toUInt8, word.toUInt8⟩

/-- How many low bits number the hosts of a subnet; more than 32 fixed bits count as 32. -/
def hostBits (fixedBits : Nat) : Nat :=
  32 - min fixedBits 32

/-- The word whose ones cover the fixed bits. A shift by all 32 bits is never needed: with no
fixed bit the mask is zero. -/
def netmask (fixedBits : Nat) : UInt32 :=
  if fixedBits = 0 then 0 else 0xFFFFFFFF <<< UInt32.ofNat (hostBits fixedBits)

def ones (mask : Ipv4) : Nat :=
  ((List.range 32).filter (fun bit => mask.toWord.toNat.testBit bit)).length

/-- The highest address that agrees with `ip` on the fixed bits. -/
def broadcast (ip : Ipv4) (fixedBits : Nat) : Ipv4 :=
  ofWord (ip.toWord ||| ~~~netmask fixedBits)

end Ipv4

end PixelTree.Net
