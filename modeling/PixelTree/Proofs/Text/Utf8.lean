import Mathlib
import PixelTree.Text.Utf8

/-! Encoded text is read back. Lenient decoding finds a fault in no text that was encoded, and only
the zero character has a zero byte, so zeros may end a text.
-/

namespace PixelTree.Text

-----------------------------------------------------------------------------------------
-- Sequences
-----------------------------------------------------------------------------------------

/-- A byte from 0x80 on that carries the low six bits of a number. -/
def trail (n : Nat) : UInt8 :=
  UInt8.ofNat (n % 64 + 128)

theorem toNat_trail (n : Nat) : (trail n).toNat = n % 64 + 128 := by
  rw [trail, UInt8.toNat_ofNat']
  omega

/-- A byte in the range asked for ends a sequence and adds its low six bits. -/
theorem continuation_last {low high : UInt8} {n : Nat} (least : low.toNat ≤ n % 64 + 128)
    (most : n % 64 + 128 ≤ high.toNat) (bits : Nat) (rest : List UInt8)
    : continuation low high bits 0 (trail n :: rest) = (some (64 * bits + n % 64), rest) := by
  have inside : low ≤ trail n ∧ trail n ≤ high := by
    rw [UInt8.le_iff_toNat_le, UInt8.le_iff_toNat_le, toNat_trail]
    exact ⟨least, most⟩
  rw [continuation, if_pos inside, toNat_trail, Nat.add_sub_cancel]

/-- A byte in the range asked for adds its low six bits and leaves the others to any range. -/
theorem continuation_cons {low high : UInt8} {n : Nat} (least : low.toNat ≤ n % 64 + 128)
    (most : n % 64 + 128 ≤ high.toNat) (bits more : Nat) (rest : List UInt8)
    : continuation low high bits (more + 1) (trail n :: rest)
      = continuation 0x80 0xBF (64 * bits + n % 64) more rest := by
  have inside : low ≤ trail n ∧ trail n ≤ high := by
    rw [UInt8.le_iff_toNat_le, UInt8.le_iff_toNat_le, toNat_trail]
    exact ⟨least, most⟩
  rw [continuation, if_pos inside, toNat_trail, Nat.add_sub_cancel]

/-- The last byte of a sequence after which any trailing byte may stand. -/
theorem continuation_trail {bits n value : Nat} (whole : 64 * bits + n % 64 = value)
    (rest : List UInt8)
    : continuation 0x80 0xBF bits 0 (trail n :: rest) = (some value, rest) := by
  have most : n % 64 + 128 ≤ 191 := by omega
  rw [continuation_last (Nat.le_add_left 128 _) most, whole]

theorem lead?_of_two {b : UInt8} (least : 0xC2 ≤ b.toNat) (most : b.toNat < 0xE0)
    : lead? b = some ⟨0x80, 0xBF, 0, b.toNat - 0xC0⟩ := by
  simp only [lead?, UInt8.lt_iff_toNat_lt, UInt8.reduceToNat]
  rw [if_neg (by omega), if_pos most]

/-- The second of three bytes is so large that the spelling is not too long, and so small that
the number is no surrogate.
-/
theorem exists_lead?_of_three {b : UInt8} (second : Nat) (least : 0xE0 ≤ b.toNat)
    (most : b.toNat < 0xF0) (trailing : 0x80 ≤ second ∧ second ≤ 0xBF)
    (short : b.toNat = 0xE0 → 0xA0 ≤ second) (scalar : b.toNat = 0xED → second ≤ 0x9F)
    : ∃ low high,
        lead? b = some ⟨low, high, 1, b.toNat - 0xE0⟩
        ∧ low.toNat ≤ second ∧ second ≤ high.toNat := by
  simp only [lead?, UInt8.lt_iff_toNat_lt, UInt8.reduceToNat, ← UInt8.toNat_inj]
  rw [if_neg (by omega), if_neg (by omega), if_pos most]
  refine ⟨_, _, rfl, ?_, ?_⟩
  · split
    · next first => exact short first
    · exact trailing.1
  · split
    · next first => exact scalar first
    · exact trailing.2

/-- The second of four bytes is so large that the spelling is not too long, and so small that
the number is a code point.
-/
theorem exists_lead?_of_four {b : UInt8} (second : Nat) (least : 0xF0 ≤ b.toNat)
    (most : b.toNat < 0xF5) (trailing : 0x80 ≤ second ∧ second ≤ 0xBF)
    (short : b.toNat = 0xF0 → 0x90 ≤ second) (point : b.toNat = 0xF4 → second ≤ 0x8F)
    : ∃ low high,
        lead? b = some ⟨low, high, 2, b.toNat - 0xF0⟩
        ∧ low.toNat ≤ second ∧ second ≤ high.toNat := by
  simp only [lead?, UInt8.lt_iff_toNat_lt, UInt8.reduceToNat, ← UInt8.toNat_inj]
  rw [if_neg (by omega), if_neg (by omega), if_neg (by omega), if_pos most]
  refine ⟨_, _, rfl, ?_, ?_⟩
  · split
    · next first => exact short first
    · exact trailing.1
  · split
    · next first => exact point first
    · exact trailing.2

/-- A longer sequence is read as its first byte asks for. -/
theorem decodeChar_of_lead {b low high : UInt8} {more bits n : Nat} {bytes rest : List UInt8}
    (leads : lead? b = some ⟨low, high, more, bits⟩)
    (continues : continuation low high bits more bytes = (some n, rest))
    : decodeChar b bytes = (some (Char.ofNat n), rest) := by
  have long : ¬ b < 0x80 := by
    intro short
    rw [lead?, if_pos (UInt8.lt_trans short (by decide))] at leads
    cases leads
  rw [decodeChar, if_neg long]
  simp only [leads, continues]
  rfl

/-- The sequence of a character is not empty, and it is read as that character, whatever follows.
The cases are the lengths of sequences.
-/
theorem decodeChar_encoded (c : Char)
    : ∃ b others,
        String.utf8EncodeChar c = b :: others
        ∧ ∀ rest, decodeChar b (others ++ rest) = (some c, rest) := by
  have valid : c.toNat < 0xD800 ∨ 0xDFFF < c.toNat ∧ c.toNat < 0x110000 := c.valid
  have back : Char.ofNat c.toNat = c := Char.ofNat_toNat c
  have value : c.val.toNat = c.toNat := rfl
  simp only [String.utf8EncodeChar, value]
  generalize c.toNat = n at valid back
  subst back
  split
  · next one =>
      have byte : (UInt8.ofNat n).toNat = n := by
        rw [UInt8.toNat_ofNat']
        omega
      have ascii : UInt8.ofNat n < 0x80 :=
        UInt8.lt_iff_toNat_lt.mpr (by rw [byte]; exact Nat.lt_succ_of_le one)
      refine ⟨_, _, rfl, fun rest => ?_⟩
      rw [decodeChar, if_pos ascii, byte, List.nil_append]
  split
  · next one two =>
      have byte : (UInt8.ofNat (n / 64 % 32 + 192)).toNat = n / 64 + 192 := by
        rw [UInt8.toNat_ofNat']
        omega
      refine ⟨_, _, rfl, fun rest => ?_⟩
      refine decodeChar_of_lead (lead?_of_two (by omega) (by omega)) ?_
      rw [byte, Nat.add_sub_cancel]
      exact continuation_trail (by omega) rest
  split
  · next one two three =>
      have byte : (UInt8.ofNat (n / 4096 % 16 + 224)).toNat = n / 4096 + 224 := by
        rw [UInt8.toNat_ofNat']
        omega
      obtain ⟨low, high, leads, least, most⟩ :=
        exists_lead?_of_three (b := UInt8.ofNat (n / 4096 % 16 + 224))
          (n / 64 % 64 + 128) (by omega) (by omega) (by omega) (by omega) (by omega)
      refine ⟨_, _, rfl, fun rest => decodeChar_of_lead leads ?_⟩
      rw [byte, Nat.add_sub_cancel]
      refine (continuation_cons least most _ 0 _).trans ?_
      exact continuation_trail (by omega) rest
  · next one two three =>
      have byte : (UInt8.ofNat (n / 262144 % 8 + 240)).toNat = n / 262144 + 240 := by
        rw [UInt8.toNat_ofNat']
        omega
      obtain ⟨low, high, leads, least, most⟩ :=
        exists_lead?_of_four (b := UInt8.ofNat (n / 262144 % 8 + 240))
          (n / 4096 % 64 + 128) (by omega) (by omega) (by omega) (by omega) (by omega)
      refine ⟨_, _, rfl, fun rest => decodeChar_of_lead leads ?_⟩
      rw [byte, Nat.add_sub_cancel]
      refine (continuation_cons least most _ 1 _).trans ?_
      refine (continuation_cons (Nat.le_add_left 128 _) (by simp; omega) _ 0 _).trans ?_
      exact continuation_trail (by omega) rest

-----------------------------------------------------------------------------------------
-- Texts
-----------------------------------------------------------------------------------------

theorem decodeAll_append (c : Char) (rest : List UInt8)
    : decodeAll (String.utf8EncodeChar c ++ rest) = some c :: decodeAll rest := by
  obtain ⟨b, others, encoded, read⟩ := decodeChar_encoded c
  rw [encoded, List.cons_append, decodeAll, read]

/-- Encoded text is decoded without a fault, by induction over its characters. -/
theorem decodeAll_encoded (cs : List Char)
    : decodeAll (cs.flatMap String.utf8EncodeChar) = cs.map some := by
  induction cs with
  | nil =>
      rw [List.flatMap_nil, decodeAll]
      rfl
  | cons c rest ih => rw [List.flatMap_cons, decodeAll_append, ih, List.map_cons]

theorem decodeLenient_utf8 (s : String) : decodeLenient (utf8 s) = s := by
  rw [decodeLenient, utf8, decodeAll_encoded, List.map_map]
  simp [Function.comp_def]

theorem ofNat_ne_zero {n : Nat} (positive : 0 < n) (small : n < 256) : UInt8.ofNat n ≠ 0 := by
  intro zero
  have value : (UInt8.ofNat n).toNat = n := by
    rw [UInt8.toNat_ofNat']
    omega
  rw [zero, UInt8.toNat_zero] at value
  omega

/-- Only the zero character has a zero byte: the first byte of a sequence has the length of the
sequence in its high bits, and those behind it have their highest bit set.
-/
theorem ne_zero_of_mem_utf8EncodeChar {c : Char} (other : c ≠ '\x00') {b : UInt8}
    (member : b ∈ String.utf8EncodeChar c)
    : b ≠ 0 := by
  have value : c.val.toNat = c.toNat := rfl
  have positive : 0 < c.toNat := by
    apply Nat.pos_of_ne_zero
    intro zero
    apply other
    rw [← Char.ofNat_toNat c, zero]
  simp only [String.utf8EncodeChar, value] at member
  split at member
  · simp only [List.mem_singleton] at member
    rw [member]
    exact ofNat_ne_zero positive (by omega)
  split at member
  · simp only [List.mem_cons, List.not_mem_nil, or_false] at member
    rcases member with rfl | rfl
    all_goals exact ofNat_ne_zero (by omega) (by omega)
  split at member
  · simp only [List.mem_cons, List.not_mem_nil, or_false] at member
    rcases member with rfl | rfl | rfl
    all_goals exact ofNat_ne_zero (by omega) (by omega)
  · simp only [List.mem_cons, List.not_mem_nil, or_false] at member
    rcases member with rfl | rfl | rfl | rfl
    all_goals exact ofNat_ne_zero (by omega) (by omega)

end PixelTree.Text
