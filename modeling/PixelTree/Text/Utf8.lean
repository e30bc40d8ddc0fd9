/-! UTF-8: texts as bytes, and bytes as texts.
Lenient decoding puts one replacement character for each longest start of a sequence that
breaks off, and one for each byte that starts none.
-/

namespace PixelTree.Text

def utf8 (s : String) : List UInt8 :=
  s.toList.flatMap String.utf8EncodeChar

def replacement : Char := '\ufffd'

/-- The bytes that may follow the first byte of a sequence: the range of the second byte, the
number of bytes after it, and the bits that the first byte adds. -/
structure Lead where
  low : UInt8
  high : UInt8
  more : Nat
  bits : Nat

/-- What the first byte of a longer sequence asks for. Its range for the second byte excludes
spellings that are too long, surrogates and numbers past the last code point. -/
def lead? (b : UInt8) : Option Lead :=
  if b < 0xC2 then none
  else if b < 0xE0 then some ⟨0x80, 0xBF, 0, b.toNat - 0xC0⟩
  else if b < 0xF0 then
    let low := if b = 0xE0 then 0xA0 else 0x80
    let high := if b = 0xED then 0x9F else 0xBF
    some ⟨low, high, 1, b.toNat - 0xE0⟩
  else if b < 0xF5 then
    let low := if b = 0xF0 then 0x90 else 0x80
    let high := if b = 0xF4 then 0x8F else 0xBF
    some ⟨low, high, 2, b.toNat - 0xF0⟩
  else none

/-- Reads the bytes after the first one. The number is missing when the sequence breaks off;
either way the rest starts behind the bytes that belong to it. -/
def continuation (low high : UInt8) (bits : Nat) : Nat → List UInt8 → Option Nat × List UInt8
  | _, [] => (none, [])
  | more, b :: rest =>
    if low ≤ b ∧ b ≤ high then
      let bits := 64 * bits + (b.toNat - 0x80)
      match more with
      | 0 => (some bits, rest)
      | more + 1 => continuation 0x80 0xBF bits more rest
    else (none, b :: rest)

/-- Reads one character or one fault, and what follows it. -/
def decodeChar (b : UInt8) (rest : List UInt8) : Option Char × List UInt8 :=
  if b < 0x80 then (some (Char.ofNat b.toNat), rest)
  else
    match lead? b with
    | none => (none, rest)
    | some lead =>
      let (number?, rest) := continuation lead.low lead.high lead.bits lead.more rest
      (number?.map Char.ofNat, rest)

theorem length_continuation_le (low high : UInt8) (bits more : Nat) (bytes : List UInt8)
    : (continuation low high bits more bytes).2.length ≤ bytes.length := by
  induction bytes generalizing low high bits more with
  | nil => simp [continuation]
  | cons b rest ih =>
      simp only [continuation]
      split
      · cases more with
        | zero => simp
        | succ more => exact Nat.le_succ_of_le (ih ..)
      · simp

theorem length_decodeChar_le (b : UInt8) (rest : List UInt8)
    : (decodeChar b rest).2.length ≤ rest.length := by
  unfold decodeChar
  split
  · simp
  · split
    · simp
    · exact length_continuation_le ..

/-- The characters of a row of bytes; a fault is a missing character. -/
def decodeAll : List UInt8 → List (Option Char)
  | [] => []
  | b :: rest => (decodeChar b rest).1 :: decodeAll (decodeChar b rest).2
termination_by bytes => bytes.length
decreasing_by exact Nat.lt_succ_of_le (length_decodeChar_le b rest)

/-- The text of a row of bytes, faults replaced. -/
def decodeLenient (bytes : List UInt8) : String :=
  String.ofList ((decodeAll bytes).map (fun c => c.getD replacement))

/-- The text of a row of bytes without faults. -/
def decode? (bytes : List UInt8) : Option String :=
  ((decodeAll bytes).mapM id).map String.ofList

end PixelTree.Text
