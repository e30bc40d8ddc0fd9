import Mathlib
import PixelTree.Kinet.Packet

/-! Little-endian words and the headers of packets, read back from their bytes. A header has one
spelling only, so what was read as one is what it is written as.
-/

namespace PixelTree.Kinet

-----------------------------------------------------------------------------------------
-- Words
-----------------------------------------------------------------------------------------

/-- Bits that stand above others are added to them. -/
theorem or_shiftLeft (width : Nat) {low : Nat} (below : low < 2 ^ width) (high : Nat)
    : low ||| (high <<< width) = low + 2 ^ width * high := by
  rw [Nat.or_comm, ← Nat.shiftLeft_add_eq_or_of_lt below, Nat.shiftLeft_eq, Nat.mul_comm,
    Nat.add_comm]

theorem toNat_word16 (low high : UInt8)
    : (word16 low high).toNat = low.toNat + 256 * high.toNat := by
  have lowBound := low.toNat_lt
  have highBound := high.toNat_lt
  have shifted : high.toNat <<< 8 % 2 ^ 16 = high.toNat <<< 8 := by
    rw [Nat.shiftLeft_eq]
    omega
  simp only [word16, UInt16.toNat_or, UInt16.toNat_shiftLeft, UInt8.toNat_toUInt16,
    UInt16.reduceToNat, Nat.reduceMod, shifted]
  exact or_shiftLeft 8 lowBound _

theorem toNat_word32 (a b c d : UInt8)
    : (word32 a b c d).toNat
      = a.toNat + 256 * (b.toNat + 256 * (c.toNat + 256 * d.toNat)) := by
  have boundA := a.toNat_lt
  have boundB := b.toNat_lt
  have boundC := c.toNat_lt
  have boundD := d.toNat_lt
  have second : b.toNat <<< 8 % 2 ^ 32 = b.toNat <<< 8 := by
    rw [Nat.shiftLeft_eq]
    omega
  have third : c.toNat <<< 16 % 2 ^ 32 = c.toNat <<< 16 := by
    rw [Nat.shiftLeft_eq]
    omega
  have fourth : d.toNat <<< 24 % 2 ^ 32 = d.toNat <<< 24 := by
    rw [Nat.shiftLeft_eq]
    omega
  simp only [word32, UInt32.toNat_or, UInt32.toNat_shiftLeft, UInt8.toNat_toUInt32,
    UInt32.reduceToNat, Nat.reduceMod, second, third, fourth]
  rw [or_shiftLeft 8 boundA, or_shiftLeft 16 (by omega), or_shiftLeft 24 (by omega)]
  ring

/-- A word is read back from its two bytes. -/
theorem word16_bytes (word : UInt16) : word16 word.toUInt8 (word >>> 8).toUInt8 = word := by
  have bound := word.toNat_lt
  apply UInt16.toNat_inj.mp
  rw [toNat_word16]
  simp only [UInt16.toNat_toUInt8, UInt16.toNat_shiftRight, UInt16.reduceToNat, Nat.reduceMod,
    Nat.shiftRight_eq_div_pow]
  omega

/-- A word is read back from its four bytes. -/
theorem word32_bytes (word : UInt32)
    : word32 word.toUInt8 (word >>> 8).toUInt8 (word >>> 16).toUInt8 (word >>> 24).toUInt8
      = word := by
  have bound := word.toNat_lt
  apply UInt32.toNat_inj.mp
  rw [toNat_word32]
  simp only [UInt32.toNat_toUInt8, UInt32.toNat_shiftRight, UInt32.reduceToNat, Nat.reduceMod,
    Nat.shiftRight_eq_div_pow]
  omega

theorem bytes16_word16 (low high : UInt8) : bytes16 (word16 low high) = [low, high] := by
  have lowBound := low.toNat_lt
  have highBound := high.toNat_lt
  simp only [bytes16, List.cons.injEq, and_true, ← UInt8.toNat_inj, UInt16.toNat_toUInt8,
    UInt16.toNat_shiftRight, UInt16.reduceToNat, Nat.reduceMod, toNat_word16,
    Nat.shiftRight_eq_div_pow]
  omega

theorem bytes32_word32 (a b c d : UInt8) : bytes32 (word32 a b c d) = [a, b, c, d] := by
  have boundA := a.toNat_lt
  have boundB := b.toNat_lt
  have boundC := c.toNat_lt
  have boundD := d.toNat_lt
  simp only [bytes32, List.cons.injEq, and_true, ← UInt8.toNat_inj, UInt32.toNat_toUInt8,
    UInt32.toNat_shiftRight, UInt32.reduceToNat, Nat.reduceMod, toNat_word32,
    Nat.shiftRight_eq_div_pow]
  omega

-----------------------------------------------------------------------------------------
-- Packet types
-----------------------------------------------------------------------------------------

namespace PacketType

theorem ofCode_code (kind : PacketType) : ofCode kind.code = .ok kind := by
  cases kind <;> rfl

theorem ofCode_eq_ok {code : UInt16} {kind : PacketType}
    : ofCode code = .ok kind ↔ code = kind.code := by
  constructor
  · intro found
    cases known : ofCode? code with
    | none =>
        rw [ofCode, known] at found
        cases found
    | some other =>
        rw [ofCode, known] at found
        cases found
        have same := List.find?_some known
        exact (beq_iff_eq.mp same).symm
  · rintro rfl
    exact ofCode_code kind

end PacketType

-----------------------------------------------------------------------------------------
-- Headers
-----------------------------------------------------------------------------------------

namespace Header

/-- A header is read back from its bytes, and what follows them is left. -/
theorem decode_encode (header : Header) (rest : Bytes)
    : decode (header.encode ++ rest) = .ok (header, rest) := by
  simp only [encode, bytes32, bytes16, List.cons_append, List.nil_append, decode, word32_bytes,
    word16_bytes, PacketType.ofCode_code]
  rfl

/-- Bytes start with a header exactly if they are the bytes of that header and a rest. -/
theorem decode_eq_ok {bytes rest : Bytes} {header : Header}
    : decode bytes = .ok (header, rest) ↔ bytes = header.encode ++ rest := by
  constructor
  · intro read
    unfold decode at read
    split at read
    · next m₀ m₁ m₂ m₃ v₀ v₁ k₀ k₁ s₀ s₁ s₂ s₃ others =>
        by_cases found : word32 m₀ m₁ m₂ m₃ = magic
        · cases known : PacketType.ofCode (word16 k₀ k₁) with
          | error error => simp [found, known, bind, Except.bind] at read
          | ok kind =>
              simp only [found, known, bind, Except.bind, pure, Except.pure, ne_eq,
                not_true_eq_false, if_false, Except.ok.injEq, Prod.mk.injEq] at read
              obtain ⟨rfl, rfl⟩ := read
              rw [encode, ← found, bytes32_word32, bytes16_word16, bytes32_word32,
                ← PacketType.ofCode_eq_ok.mp known, bytes16_word16]
              rfl
        · simp [found, bind, Except.bind, throw, throwThe, MonadExceptOf.throw] at read
    · cases read
  · rintro rfl
    exact decode_encode header rest

/-- The header of a packet is its first twelve bytes. -/
theorem decode_eq_ok_iff_take {bytes rest : Bytes} {header : Header}
    : decode bytes = .ok (header, rest)
      ↔ header.encode = bytes.take size ∧ rest = bytes.drop size := by
  rw [decode_eq_ok]
  constructor
  · rintro rfl
    exact ⟨rfl, rfl⟩
  · rintro ⟨front, rfl⟩
    rw [front, List.take_append_drop]

end Header

end PixelTree.Kinet
