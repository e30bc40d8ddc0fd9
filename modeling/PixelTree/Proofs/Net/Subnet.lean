import PixelTree.Net.Ipv4
import PixelTree.Proofs.Kinet.Header

/-! Subnets: the addresses that agree in their first bits. The broadcast address of a subnet is the
greatest of them, and each of them leads to it.
-/

namespace PixelTree.Net.Ipv4

-----------------------------------------------------------------------------------------
-- Bits of addresses
-----------------------------------------------------------------------------------------

/-- The number that the octets of an address spell, highest first. -/
def value (ip : Ipv4) : Nat :=
  ip.octets.foldl (fun value octet => 256 * value + octet.toNat) 0

/-- The bit at a position, counted from the highest bit of the first octet. -/
def bitAt (ip : Ipv4) (position : Nat) : Bool :=
  (ip.octets.getD (position / 8) 0).toNat.testBit (7 - position % 8)

/-- Addresses of one subnet agree in the bits that are fixed; more than 32 of them count as 32. -/
def SameSubnet (fixedBits : Nat) (ip other : Ipv4) : Prop :=
  ∀ position < min fixedBits 32, other.bitAt position = ip.bitAt position

/-- Four octets follow each other in the number that they spell. -/
theorem testBit_value (ip : Ipv4) {position : Nat} (inside : position < 32)
    : ip.value.testBit (31 - position) = ip.bitAt position := by
  have boundB := ip.b.toNat_lt
  have boundC := ip.c.toNat_lt
  have boundD := ip.d.toNat_lt
  have spelled : ip.value
      = 2 ^ 8 * (2 ^ 8 * (2 ^ 8 * ip.a.toNat + ip.b.toNat) + ip.c.toNat) + ip.d.toNat := by
    simp [value, octets]
  rw [spelled, Nat.testBit_two_pow_mul_add _ boundD, Nat.testBit_two_pow_mul_add _ boundC,
    Nat.testBit_two_pow_mul_add _ boundB, bitAt]
  have octet : position / 8 = 0 ∨ position / 8 = 1 ∨ position / 8 = 2 ∨ position / 8 = 3 := by
    omega
  rcases octet with first | second | third | fourth
  · rw [if_neg (by omega), if_neg (by omega), if_neg (by omega), first]
    exact congrArg ip.a.toNat.testBit (by omega)
  · rw [if_neg (by omega), if_neg (by omega), if_pos (by omega), second]
    exact congrArg ip.b.toNat.testBit (by omega)
  · rw [if_neg (by omega), if_pos (by omega), third]
    exact congrArg ip.c.toNat.testBit (by omega)
  · rw [if_pos (by omega), fourth]
    exact congrArg ip.d.toNat.testBit (by omega)

/-- The word of an address has its lowest octet last. -/
theorem toWord_eq (ip : Ipv4) : ip.toWord = Kinet.word32 ip.d ip.c ip.b ip.a := by
  rw [toWord, Kinet.word32, UInt32.or_comm _ ip.d.toUInt32, UInt32.or_comm _ (ip.c.toUInt32 <<< 8),
    UInt32.or_comm _ (ip.b.toUInt32 <<< 16), UInt32.or_assoc, UInt32.or_assoc]

theorem toNat_toWord (ip : Ipv4) : ip.toWord.toNat = ip.value := by
  rw [toWord_eq, Kinet.toNat_word32]
  simp only [value, octets, List.foldl_cons, List.foldl_nil]
  omega

theorem toWord_ofWord (word : UInt32) : (ofWord word).toWord = word := by
  rw [toWord_eq]
  exact Kinet.word32_bytes word

/-- An address is told by its number. -/
theorem value_inj {ip other : Ipv4} (same : ip.value = other.value) : ip = other := by
  have words : ip.toWord = other.toWord := by
    rw [← UInt32.toNat_inj, toNat_toWord, toNat_toWord, same]
  have octets := Kinet.bytes32_word32 ip.d ip.c ip.b ip.a
  have octets' := Kinet.bytes32_word32 other.d other.c other.b other.a
  rw [← toWord_eq, words, toWord_eq, octets'] at octets
  simp only [List.cons.injEq, and_true] at octets
  obtain ⟨d, c, b, a⟩ := octets
  cases ip
  cases other
  simp only [mk.injEq]
  exact ⟨a.symm, b.symm, c.symm, d.symm⟩

-----------------------------------------------------------------------------------------
-- Masks
-----------------------------------------------------------------------------------------

theorem hostBits_le (fixedBits : Nat) : hostBits fixedBits ≤ 32 :=
  Nat.sub_le 32 _

/-- With a fixed bit there are fewer than 32 bits for the hosts. -/
theorem hostBits_lt {fixedBits : Nat} (fixed : fixedBits ≠ 0) : hostBits fixedBits < 32 := by
  unfold hostBits
  omega

/-- The bits that a mask does not cover are all bits for the hosts. -/
theorem toNat_not_netmask (fixedBits : Nat)
    : (~~~netmask fixedBits).toNat = 2 ^ hostBits fixedBits - 1 := by
  by_cases none : fixedBits = 0
  · subst none
    rfl
  · have few := hostBits_lt none
    have least := Nat.one_le_two_pow (n := hostBits fixedBits)
    have most : 2 ^ hostBits fixedBits ≤ 2 ^ 32 := Nat.pow_le_pow_right (by decide) few.le
    have amount : (UInt32.ofNat (hostBits fixedBits)).toNat % 32 = hostBits fixedBits := by
      rw [UInt32.toNat_ofNat']
      omega
    rw [netmask, if_neg none, UInt32.toNat_not, UInt32.toNat_shiftLeft, amount, Nat.shiftLeft_eq]
    generalize 2 ^ hostBits fixedBits = size at least most
    have ones : (0xFFFFFFFF : UInt32).toNat = 2 ^ 32 - 1 := rfl
    have limit : UInt32.size = 2 ^ 32 := rfl
    rw [ones, limit]
    omega

/-- The broadcast address has all bits of an address, and every bit for the hosts. -/
theorem value_broadcast (ip : Ipv4) (fixedBits : Nat)
    : (ip.broadcast fixedBits).value = ip.value ||| (2 ^ hostBits fixedBits - 1) := by
  rw [← toNat_toWord, broadcast, toWord_ofWord, UInt32.toNat_or, toNat_toWord,
    toNat_not_netmask]

/-- Addresses of one subnet agree in every bit that is not one for the hosts. -/
theorem sameSubnet_iff {fixedBits : Nat} {ip other : Ipv4}
    : SameSubnet fixedBits ip other
      ↔ ∀ bit ≥ hostBits fixedBits, other.value.testBit bit = ip.value.testBit bit := by
  constructor
  · intro same bit fixed
    by_cases inside : bit < 32
    · have agree := same (31 - bit) (by unfold hostBits at fixed; omega)
      rwa [← testBit_value _ (by omega), ← testBit_value _ (by omega),
        show 31 - (31 - bit) = bit by omega] at agree
    · have outside (ip : Ipv4) : ip.value.testBit bit = false := by
        rw [← toNat_toWord]
        exact Nat.testBit_lt_two_pow
          (ip.toWord.toNat_lt.trans_le (Nat.pow_le_pow_right (by decide) (by omega)))
      rw [outside, outside]
  · intro agree position fixed
    rw [← testBit_value _ (by omega), ← testBit_value _ (by omega)]
    exact agree (31 - position) (by unfold hostBits; omega)

theorem testBit_broadcast (ip : Ipv4) (fixedBits bit : Nat)
    : (ip.broadcast fixedBits).value.testBit bit
      = (ip.value.testBit bit || decide (bit < hostBits fixedBits)) := by
  rw [value_broadcast, Nat.testBit_or, Nat.testBit_two_pow_sub_one]

theorem sameSubnet_broadcast (ip : Ipv4) (fixedBits : Nat)
    : SameSubnet fixedBits ip (ip.broadcast fixedBits) := by
  refine sameSubnet_iff.mpr (fun bit fixed => ?_)
  rw [testBit_broadcast, decide_eq_false (Nat.not_lt.mpr fixed), Bool.or_false]

/-- No address of a subnet has a bit that the broadcast address lacks. -/
theorem SameSubnet.value_le {fixedBits : Nat} {ip other : Ipv4}
    (same : SameSubnet fixedBits ip other)
    : other.value ≤ (ip.broadcast fixedBits).value := by
  refine Nat.le_of_testBit (fun bit set => ?_)
  rw [testBit_broadcast, Bool.or_eq_true, decide_eq_true_eq]
  rcases Nat.lt_or_ge bit (hostBits fixedBits) with host | fixed
  · exact Or.inr host
  · exact Or.inl ((sameSubnet_iff.mp same bit fixed).symm.trans set)

/-- All addresses of a subnet have one broadcast address. -/
theorem SameSubnet.broadcast_eq {fixedBits : Nat} {ip other : Ipv4}
    (same : SameSubnet fixedBits ip other)
    : other.broadcast fixedBits = ip.broadcast fixedBits := by
  refine value_inj (Nat.eq_of_testBit_eq (fun bit => ?_))
  rw [testBit_broadcast, testBit_broadcast]
  rcases Nat.lt_or_ge bit (hostBits fixedBits) with host | fixed
  · rw [decide_eq_true host, Bool.or_true, Bool.or_true]
  · rw [sameSubnet_iff.mp same bit fixed]

/-- With fewer fixed bits the subnet of an address keeps all of its addresses. -/
theorem SameSubnet.mono {fixedBits fewer : Nat} {ip other : Ipv4}
    (same : SameSubnet fixedBits ip other) (le : fewer ≤ fixedBits)
    : SameSubnet fewer ip other :=
  fun position fixed => same position (by omega)

-----------------------------------------------------------------------------------------
-- Masks on a machine
-----------------------------------------------------------------------------------------

/-- A difference of words, none if it is too small for one. -/
def difference? (a b : UInt32) : Option UInt32 :=
  if b ≤ a then some (a - b) else none

/-- A shift of a word, none if it is not by fewer bits than the word has. -/
def shiftLeft? (word amount : UInt32) : Option UInt32 :=
  if amount < 32 then some (word <<< amount) else none

def hostBits? (fixedBits : UInt8) : Option UInt32 :=
  difference? 32 (min fixedBits 32).toUInt32

def netmask? (fixedBits : UInt8) : Option UInt32 :=
  if fixedBits = 0 then some 0 else do shiftLeft? 0xFFFFFFFF (← hostBits? fixedBits)

def broadcast? (ip : Ipv4) (fixedBits : UInt8) : Option Ipv4 := do
  return ofWord (ip.toWord ||| ~~~(← netmask? fixedBits))

theorem toNat_min (fixedBits : UInt8)
    : (min fixedBits 32).toUInt32.toNat = min fixedBits.toNat 32 := by
  have least : min fixedBits 32 = if fixedBits ≤ 32 then fixedBits else 32 := rfl
  have limit : (32 : UInt8).toNat = 32 := rfl
  rw [UInt8.toNat_toUInt32, least]
  split
  · next few =>
      have few := UInt8.le_iff_toNat_le.mp few
      omega
  · next many =>
      have many := mt UInt8.le_iff_toNat_le.mpr many
      omega

theorem hostBits?_eq (fixedBits : UInt8)
    : hostBits? fixedBits = some (UInt32.ofNat (hostBits fixedBits.toNat)) := by
  have below : (min fixedBits 32).toUInt32 ≤ 32 := by
    rw [UInt32.le_iff_toNat_le, toNat_min]
    exact Nat.min_le_right _ _
  have small := hostBits_le fixedBits.toNat
  rw [hostBits?, difference?, if_pos below, Option.some.injEq, ← UInt32.toNat_inj,
    UInt32.toNat_sub_of_le _ _ below, toNat_min, UInt32.toNat_ofNat', Nat.mod_eq_of_lt (by omega)]
  rfl

/-- Without a fixed bit nothing is shifted, and with one the shift is by fewer than 32 bits. -/
theorem netmask?_eq (fixedBits : UInt8) : netmask? fixedBits = some (netmask fixedBits.toNat) := by
  by_cases none : fixedBits = 0
  · subst none
    rfl
  · have fixed : fixedBits.toNat ≠ 0 := by
      intro zero
      exact none (UInt8.toNat_inj.mp zero)
    have few := hostBits_lt fixed
    have shifted : UInt32.ofNat (hostBits fixedBits.toNat) < 32 := by
      rw [UInt32.lt_iff_toNat_lt, UInt32.toNat_ofNat', Nat.mod_eq_of_lt (by omega)]
      exact few
    rw [netmask?, if_neg none, hostBits?_eq]
    change shiftLeft? _ _ = _
    rw [shiftLeft?, if_pos shifted, netmask, if_neg fixed]

-----------------------------------------------------------------------------------------
-- Broadcasting
-----------------------------------------------------------------------------------------

/-- The broadcast address of a subnet agrees with its addresses in the fixed bits, is the greatest
address that does, and is the same for every address of the subnet, itself included. With fewer
fixed bits it is no smaller. No difference or shift on the way to it leaves a word.
-/
theorem broadcast_tops_subnet (ip : Ipv4) (fixedBits : UInt8)
    : let top := ip.broadcast fixedBits.toNat
      SameSubnet fixedBits.toNat ip top
      ∧ (∀ other, SameSubnet fixedBits.toNat ip other → other.value ≤ top.value)
      ∧ (∀ other, SameSubnet fixedBits.toNat ip other → other.broadcast fixedBits.toNat = top)
      ∧ top.broadcast fixedBits.toNat = top
      ∧ (∀ fewer ≤ fixedBits, top.value ≤ (ip.broadcast fewer.toNat).value)
      ∧ broadcast? ip fixedBits = some top := by
  intro top
  have shared := sameSubnet_broadcast ip fixedBits.toNat
  refine ⟨shared, fun _ => SameSubnet.value_le, fun _ => SameSubnet.broadcast_eq,
    shared.broadcast_eq, ?_, ?_⟩
  · intro fewer le
    exact (shared.mono (UInt8.le_iff_toNat_le.mp le)).value_le
  · rw [broadcast?, netmask?_eq]
    rfl

/-- With twenty fixed bits the third octet is parted among subnets. -/
theorem broadcast_tops_subnet_twenty
    : SameSubnet 20 ⟨172, 16, 5, 9⟩ ⟨172, 16, 0, 1⟩
      ∧ (⟨172, 16, 0, 1⟩ : Ipv4).value ≤ (⟨172, 16, 15, 255⟩ : Ipv4).value
      ∧ (⟨172, 16, 0, 1⟩ : Ipv4).broadcast 20 = ⟨172, 16, 15, 255⟩ := by
  have same : SameSubnet 20 ⟨172, 16, 5, 9⟩ ⟨172, 16, 0, 1⟩ := by
    unfold SameSubnet
    decide
  have top : (⟨172, 16, 5, 9⟩ : Ipv4).broadcast 20 = ⟨172, 16, 15, 255⟩ := rfl
  obtain ⟨_, greatest, shared, _⟩ := broadcast_tops_subnet ⟨172, 16, 5, 9⟩ 20
  exact ⟨same, (greatest _ same).trans_eq (congrArg value top), (shared _ same).trans top⟩

end PixelTree.Net.Ipv4
