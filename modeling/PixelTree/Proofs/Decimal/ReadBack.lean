import PixelTree.Proofs.Decimal.MachineBits
import PixelTree.Proofs.Digits

/-! Every finite 64-bit number is read back from its written form.
The shortest decimal has the number's bits because it was tried out, and the decimal with all
digits has them because a magnitude of the format is a multiple of its own quantum.
-/

namespace PixelTree.Decimal

-----------------------------------------------------------------------------------------
-- Magnitudes of the format
-----------------------------------------------------------------------------------------

/-- A quotient of whole powers of two is a power of two with an integral exponent. -/
theorem two_zpow_mul (g : Int) : (2 : ℚ) ^ g * 2 ^ (-g).toNat = 2 ^ g.toNat := by
  rw [← zpow_natCast, ← zpow_natCast, ← zpow_add₀ (by norm_num)]
  congr 1
  omega

theorem isBelow_iff (numerator denominator : Nat) (g : Int)
    : numerator * 2 ^ (-g).toNat < denominator * 2 ^ g.toNat
      ↔ (numerator : ℚ) < denominator * 2 ^ g := by
  have scale : (0 : ℚ) < 2 ^ (-g).toNat := by positivity
  rw [← mul_lt_mul_iff_left₀ scale, mul_assoc, two_zpow_mul]
  exact_mod_cast Iff.rfl

/-- A number lies between the power of two of its logarithm and the next one. -/
theorem two_zpow_log2_le {n : Nat} (nonzero : n ≠ 0) : (2 : ℚ) ^ (n.log2 : Int) ≤ n := by
  exact_mod_cast Nat.log2_self_le nonzero

theorem lt_two_zpow_log2 (n : Nat) : (n : ℚ) < 2 ^ ((n.log2 : Int) + 1) := by
  exact_mod_cast Nat.lt_log2_self (n := n)

/-- The logarithm of a fraction, rounded down, is the guess or one less, and the test tells
which.
-/
theorem quantum_eq {numerator denominator : Nat} {k : Int} (hn : numerator ≠ 0)
    (hd : denominator ≠ 0) (least : (denominator : ℚ) * 2 ^ k ≤ numerator)
    (most : (numerator : ℚ) < denominator * 2 ^ (k + 1))
    : quantum numerator denominator = max (k - 52) (-1074) := by
  have numeratorLeast := two_zpow_log2_le hn
  have numeratorMost := lt_two_zpow_log2 numerator
  have denominatorLeast := two_zpow_log2_le hd
  have denominatorMost := lt_two_zpow_log2 denominator
  have positive : (0 : ℚ) < 2 ^ k := by positivity
  have tooLow : k < (numerator.log2 : Int) - denominator.log2 + 1 := by
    have chain : (2 : ℚ) ^ ((denominator.log2 : Int) + k) < 2 ^ ((numerator.log2 : Int) + 1) :=
      calc (2 : ℚ) ^ ((denominator.log2 : Int) + k)
          = 2 ^ (denominator.log2 : Int) * 2 ^ k := zpow_add₀ (by norm_num) _ _
        _ ≤ denominator * 2 ^ k := by gcongr
        _ ≤ numerator := least
        _ < 2 ^ ((numerator.log2 : Int) + 1) := numeratorMost
    have exponents := (zpow_lt_zpow_iff_right₀ (by norm_num)).mp chain
    omega
  have tooHigh : (numerator.log2 : Int) - denominator.log2 - 1 ≤ k := by
    have chain : (2 : ℚ) ^ (numerator.log2 : Int) < 2 ^ ((denominator.log2 : Int) + k + 2) :=
      calc (2 : ℚ) ^ (numerator.log2 : Int) ≤ numerator := numeratorLeast
        _ < denominator * 2 ^ (k + 1) := most
        _ ≤ 2 ^ ((denominator.log2 : Int) + 1) * 2 ^ (k + 1) := by gcongr
        _ = 2 ^ ((denominator.log2 : Int) + k + 2) := by
            rw [← zpow_add₀ (by norm_num)]
            congr 1
            omega
    have exponents := (zpow_lt_zpow_iff_right₀ (by norm_num)).mp chain
    omega
  have tested := isBelow_iff numerator denominator (numerator.log2 - denominator.log2)
  simp only [quantum, Nat.pow_eq]
  split
  · next below =>
      have short := tested.mp below
      have chain := (mul_lt_mul_iff_right₀ (by positivity)).mp (least.trans_lt short)
      have exponents := (zpow_lt_zpow_iff_right₀ (by norm_num)).mp chain
      congr 1
      omega
  · next reached =>
      have long := not_lt.mp (fun short => reached (tested.mpr short))
      have chain := (mul_lt_mul_iff_right₀ (by positivity)).mp (long.trans_lt most)
      have exponents := (zpow_lt_zpow_iff_right₀ (by norm_num)).mp chain
      congr 1
      omega

theorem roundHalfEven_mul {denominator : Nat} (positive : 0 < denominator) (quotient : Nat)
    : roundHalfEven (quotient * denominator) denominator = quotient := by
  simp [roundHalfEven, Nat.mul_div_cancel _ positive, positive]

namespace Binary

variable {x : Binary}

/-- A fraction of the same value as a magnitude, as a rational number. -/
theorem rational_eq {numerator denominator : Nat}
    (same : numerator * x.denominator = x.numerator * denominator)
    : (numerator : ℚ) = denominator * (x.significand * 2 ^ x.exponent) := by
  have scale : (2 : ℚ) ^ (-x.exponent).toNat ≠ 0 := by positivity
  have rational : (numerator : ℚ) * 2 ^ (-x.exponent).toNat
      = x.significand * 2 ^ x.exponent.toNat * denominator := by
    exact_mod_cast same
  rw [← two_zpow_mul x.exponent] at rational
  refine mul_right_cancel₀ scale ?_
  rw [rational]
  ring

/-- A magnitude of the format is a multiple of its own quantum: its significand takes up all 53
bits, or its exponent is the least one.
-/
theorem Canonical.quantum_eq (canonical : x.Canonical) (nonzero : x.significand ≠ 0)
    {numerator denominator : Nat} (hd : denominator ≠ 0)
    (same : numerator * x.denominator = x.numerator * denominator)
    : quantum numerator denominator = x.exponent := by
  have value := rational_eq same
  have significandLeast := two_zpow_log2_le nonzero
  have significandMost := lt_two_zpow_log2 x.significand
  have positive : (0 : ℚ) < denominator := by
    exact_mod_cast Nat.pos_of_ne_zero hd
  have hn : numerator ≠ 0 := by
    rintro rfl
    have zero : (denominator : ℚ) * (x.significand * 2 ^ x.exponent) ≠ 0 := by positivity
    exact zero (by rw [← value, Nat.cast_zero])
  have least : (denominator : ℚ) * 2 ^ ((x.significand.log2 : Int) + x.exponent) ≤ numerator := by
    rw [value, zpow_add₀ (by norm_num)]
    gcongr
  have most : (numerator : ℚ)
      < denominator * 2 ^ ((x.significand.log2 : Int) + x.exponent + 1) := by
    rw [value, add_right_comm, zpow_add₀ (by norm_num) _ x.exponent]
    gcongr
  have bits : x.significand.log2 < 53 :=
    (Nat.log2_lt nonzero).mpr canonical.below
  have exponentLeast := canonical.least
  rw [Decimal.quantum_eq hn hd least most]
  rcases canonical.full with lowest | full
  · omega
  · have enough : 52 ≤ x.significand.log2 := (Nat.le_log2 nonzero).mpr full
    omega

/-- A fraction of the same value as a magnitude of the format has the magnitude's bits for its
nearest bits.
-/
theorem Canonical.nearestBits_eq (canonical : x.Canonical) (nonzero : x.significand ≠ 0)
    {numerator denominator : Nat} (hd : denominator ≠ 0)
    (same : numerator * x.denominator = x.numerator * denominator)
    : nearestBits numerator denominator = x.magnitudeBits := by
  have hn : numerator ≠ 0 := by
    rintro rfl
    simp [Binary.numerator, nonzero, hd] at same
  have scaled : numerator * Nat.pow 2 (-x.exponent).toNat
      = x.significand * (denominator * Nat.pow 2 x.exponent.toNat) := by
    simp only [Binary.numerator, Binary.denominator] at same
    rw [same]
    ring
  have positive : 0 < denominator * Nat.pow 2 x.exponent.toNat :=
    Nat.mul_pos (Nat.pos_of_ne_zero hd) (Nat.pow_pos (by decide))
  have bounded : (x.exponent + 1074).toNat * 4503599627370496 + x.significand
      ≤ 2047 * 4503599627370496 := by
    have below := canonical.below
    have most := canonical.most
    omega
  rw [nearestBits, if_neg hn]
  simp only [canonical.quantum_eq nonzero hd same, scaled, roundHalfEven_mul positive]
  exact Nat.min_eq_left bounded

end Binary

-----------------------------------------------------------------------------------------
-- All digits
-----------------------------------------------------------------------------------------

/-- A decimal whose number of digits does not decide is rounded as a fraction. -/
theorem Scientific.bits_eq_nearestBits {d : Scientific} (nonzero : d.coefficient ≠ 0)
    (low : -400 ≤ ((Nat.toDigits 10 d.coefficient).length : Int) + d.exponent)
    (high : ((Nat.toDigits 10 d.coefficient).length : Int) + d.exponent ≤ 400)
    : d.bits
      = nearestBits (d.coefficient * Nat.pow 10 d.exponent.toNat)
          (Nat.pow 10 (-d.exponent).toNat) := by
  have inRange : ¬ (d.coefficient = 0
      ∨ ((Nat.toDigits 10 d.coefficient).length : Int) + d.exponent < -400) := by
    rintro (zero | below)
    · exact nonzero zero
    · omega
  simp only [Scientific.bits]
  rw [if_neg inRange, if_neg (by omega)]

/-- A number below a power of ten has no more digits than the power has zeros. -/
theorem length_toDigits_le {n k : Nat} (positive : 0 < k) (below : n < 10 ^ k)
    : (Nat.toDigits 10 n).length ≤ k :=
  (Nat.length_toDigits_le_iff (by decide) positive).mpr below

/-- A number that is not below a power of ten has at least as many digits as the power has
zeros.
-/
theorem le_length_toDigits {n k : Nat} (reached : 10 ^ k ≤ n)
    : k ≤ (Nat.toDigits 10 n).length := by
  cases k with
  | zero => exact Nat.zero_le _
  | succ k =>
      by_contra short
      have below := (Nat.length_toDigits_le_iff (b := 10) (n := n) (by decide)
        (Nat.succ_pos k)).mp (Nat.le_of_not_le short)
      omega

/-- All digits of a whole magnitude of the format are at most 400. -/
theorem length_numerator_le {x : Binary} (canonical : x.Canonical)
    : (Nat.toDigits 10 x.numerator).length ≤ 400 := by
  have most := canonical.most
  have power : 2 ^ x.exponent.toNat ≤ 2 ^ 971 := Nat.pow_le_pow_right (by decide) (by omega)
  have bound : 9007199254740992 * 2 ^ 971 ≤ 10 ^ 400 := by decide +kernel
  apply length_toDigits_le (by decide)
  calc x.numerator
      < 9007199254740992 * 2 ^ x.exponent.toNat :=
        Nat.mul_lt_mul_of_pos_right canonical.below (Nat.pow_pos (by decide))
    _ ≤ 9007199254740992 * 2 ^ 971 := Nat.mul_le_mul_left _ power
    _ ≤ 10 ^ 400 := bound

/-- All digits of a broken magnitude are at most sixteen more than its places behind the
point.
-/
theorem length_broken_le {x : Binary} (canonical : x.Canonical) (n : Nat)
    : (Nat.toDigits 10 (x.significand * 5 ^ n)).length ≤ n + 16 := by
  have below : x.significand < 10 ^ 16 := canonical.below.trans (by decide)
  have power : 5 ^ n ≤ 10 ^ n := Nat.pow_le_pow_left (by decide) n
  apply length_toDigits_le (by omega)
  calc x.significand * 5 ^ n
      < 10 ^ 16 * 5 ^ n := Nat.mul_lt_mul_of_pos_right below (by positivity)
    _ ≤ 10 ^ 16 * 10 ^ n := Nat.mul_le_mul_left _ power
    _ = 10 ^ (n + 16) := by ring

/-- All digits of a broken magnitude reach to within 400 of its places behind the point. -/
theorem le_length_broken {x : Binary} (nonzero : x.significand ≠ 0) {n : Nat}
    (bounded : n ≤ 1074)
    : n - 400 ≤ (Nat.toDigits 10 (x.significand * 5 ^ n)).length := by
  have positive : 1 ≤ x.significand := Nat.one_le_iff_ne_zero.mpr nonzero
  have bound : 2 ^ 674 ≤ 5 ^ 400 := by decide +kernel
  have power : 2 ^ (n - 400) ≤ 2 ^ 674 := Nat.pow_le_pow_right (by decide) (by omega)
  apply le_length_toDigits
  rcases Nat.le_total n 400 with short | long
  · rw [Nat.sub_eq_zero_of_le short, pow_zero]
    exact Nat.mul_pos positive (by positivity)
  · calc 10 ^ (n - 400)
        = 2 ^ (n - 400) * 5 ^ (n - 400) := Nat.mul_pow 2 5 _
      _ ≤ 5 ^ 400 * 5 ^ (n - 400) := Nat.mul_le_mul_right _ (power.trans bound)
      _ = 5 ^ n := pow_mul_pow_sub 5 long
      _ ≤ x.significand * 5 ^ n := Nat.le_mul_of_pos_left _ positive

/-- The decimal with all digits of a magnitude of the format has the magnitude's bits. It is far
from the bounds past which the number of digits decides.
-/
theorem bits_exactDecimal {x : Binary} (canonical : x.Canonical)
    (nonzero : x.significand ≠ 0)
    : (exactDecimal x).bits = x.magnitudeBits := by
  have least := canonical.least
  unfold exactDecimal
  split
  · next whole =>
      have length := length_numerator_le canonical
      have numerator : x.numerator ≠ 0 :=
        Nat.mul_ne_zero nonzero (Nat.pow_pos (by decide)).ne'
      rw [Scientific.bits_eq_nearestBits numerator (by dsimp only; omega) (by dsimp only; omega)]
      apply canonical.nearestBits_eq nonzero (Nat.pow_pos (by decide)).ne'
      have none : (-x.exponent).toNat = 0 := by omega
      simp [Binary.denominator, none]
  · next broken =>
      have places : x.exponent = -((-x.exponent).toNat : Int) := by omega
      have upper := length_broken_le canonical (-x.exponent).toNat
      have lower := le_length_broken nonzero (n := (-x.exponent).toNat) (by omega)
      have coefficient : x.significand * Nat.pow 5 (-x.exponent).toNat ≠ 0 :=
        Nat.mul_ne_zero nonzero (Nat.pow_pos (by decide)).ne'
      rw [Scientific.bits_eq_nearestBits coefficient (by dsimp only [Nat.pow_eq]; omega)
        (by dsimp only [Nat.pow_eq]; omega)]
      apply canonical.nearestBits_eq nonzero (Nat.pow_pos (by decide)).ne'
      have none : x.exponent.toNat = 0 := by omega
      simp only [Binary.denominator, Binary.numerator, none, Nat.pow_eq, pow_zero, mul_one]
      rw [mul_assoc, ← Nat.mul_pow]

/-- The shortest decimal with the bits of a magnitude has these bits: a candidate was tested for
them, and all digits have them anyway.
-/
theorem bits_shortest {x : Binary} (canonical : x.Canonical) (nonzero : x.significand ≠ 0)
    : (shortest x.magnitudeBits x).bits = x.magnitudeBits := by
  unfold shortest
  cases found : (candidates x).find? (fun d => d.bits == x.magnitudeBits) with
  | none => exact bits_exactDecimal canonical nonzero
  | some d =>
      have tested := List.find?_some found
      exact beq_iff_eq.mp tested

-----------------------------------------------------------------------------------------
-- Digits with a point
-----------------------------------------------------------------------------------------

/-- Digits in front of something else are taken off as a whole. -/
theorem spanDigits_append {digits rest : List Char} (all : ∀ c ∈ digits, c.isDigit = true)
    (stop : ∀ c, rest.head? = some c → c.isDigit = false)
    : spanDigits (digits ++ rest) = (digits, rest) := by
  have front : rest.takeWhile Char.isDigit = [] := by
    cases rest with
    | nil => rfl
    | cons c others => simp [stop c rfl]
  have back : rest.dropWhile Char.isDigit = rest := by
    cases rest with
    | nil => rfl
    | cons c others => simp [stop c rfl]
  rw [spanDigits, List.takeWhile_append_of_pos all, List.dropWhile_append_of_pos all, front,
    back, List.append_nil]

theorem scientific?_whole {whole : List Char} (nonempty : whole ≠ [])
    (all : ∀ c ∈ whole, c.isDigit = true)
    : scientific? whole = some ⟨Numeral.digitsValue whole, 0⟩ := by
  have span : spanDigits (whole ++ []) = (whole, []) := spanDigits_append all (by simp)
  rw [List.append_nil] at span
  simp [scientific?, span, nonempty, trailer?]

/-- Digits before and after a point are read as one row of digits, and the point only counts. -/
theorem scientific?_broken {whole fraction : List Char} (nonempty : whole ≠ [])
    (wholeDigits : ∀ c ∈ whole, c.isDigit = true)
    (fractionDigits : ∀ c ∈ fraction, c.isDigit = true)
    : scientific? (whole ++ '.' :: fraction)
      = some ⟨Numeral.digitsValue (whole ++ fraction), -fraction.length⟩ := by
  have front : spanDigits (whole ++ '.' :: fraction) = (whole, '.' :: fraction) := by
    apply spanDigits_append wholeDigits
    intro c head
    cases head
    rfl
  have back : spanDigits (fraction ++ []) = (fraction, []) :=
    spanDigits_append fractionDigits (by simp)
  rw [List.append_nil] at back
  simp [scientific?, front, back, nonempty, trailer?]

/-- A power of ten appends its zeros to the digits of a number, by induction over the power. -/
theorem toDigits_mul_pow {c : Nat} (nonzero : c ≠ 0) (n : Nat)
    : Nat.toDigits 10 (c * 10 ^ n) = Nat.toDigits 10 c ++ List.replicate n '0' := by
  induction n with
  | zero => simp
  | succ n ih =>
      have positive : 0 < c * 10 ^ n :=
        Nat.mul_pos (Nat.pos_of_ne_zero nonzero) (by positivity)
      have longer := Nat.toDigits_append_toDigits (b := 10) (d := 0) (by decide) positive
        (by decide)
      rw [Nat.pow_succ, ← Nat.mul_assoc, Nat.mul_comm, ← Nat.add_zero (10 * (c * 10 ^ n)),
        ← longer, ih, List.append_assoc, List.replicate_succ']
      rfl

/-- Zeros that move from the exponent into the coefficient leave the bits as they are. -/
theorem bits_moved_zeros (c n : Nat)
    : Scientific.bits ⟨c * 10 ^ n, 0⟩ = Scientific.bits ⟨c, n⟩ := by
  by_cases zero : c = 0
  · simp [Scientific.bits, zero]
  · have coefficient : c * 10 ^ n ≠ 0 := Nat.mul_ne_zero zero (by positivity)
    simp [Scientific.bits, zero, coefficient, toDigits_mul_pow zero]

/-- A decimal is read back from its positional form as one with the same bits. Only zeros at the
end of a whole number have moved into the coefficient.
-/
theorem scientific?_positional (d : Scientific)
    : ∃ found, scientific? d.positional = some found ∧ found.bits = d.bits := by
  obtain ⟨c, e⟩ := d
  have digits : ∀ k ∈ Nat.toDigits 10 c, k.isDigit = true :=
    fun _ => Numeral.isDigit_of_mem_toDigits
  have zeros : ∀ n : Nat, ∀ k ∈ List.replicate n '0', k.isDigit = true := by
    intro n k member
    rw [List.eq_of_mem_replicate member]
    rfl
  have value := Nat.ofDigitChars_ten_toDigits (n := c)
  simp only [Scientific.positional]
  split
  · next whole =>
      obtain ⟨n, rfl⟩ := Int.eq_ofNat_of_zero_le whole
      refine ⟨⟨c * 10 ^ n, 0⟩, ?_, bits_moved_zeros c n⟩
      rw [Int.toNat_natCast, scientific?_whole (by simp [Nat.toDigits_ne_nil])
        (List.forall_mem_append.mpr ⟨digits, zeros n⟩), Numeral.digitsValue_eq,
        Nat.ofDigitChars_append, Nat.ofDigitChars_replicate_zero, value, Nat.mul_comm]
  · next broken =>
      split
      · next front =>
          refine ⟨⟨c, e⟩, ?_, rfl⟩
          have nonempty : (Nat.toDigits 10 c).take ((Nat.toDigits 10 c).length + e).toNat ≠ [] := by
            rw [ne_eq, List.take_eq_nil_iff, not_or]
            exact ⟨by omega, Nat.toDigits_ne_nil⟩
          rw [scientific?_broken nonempty (fun k member => digits k (List.mem_of_mem_take member))
            (fun k member => digits k (List.mem_of_mem_drop member)), List.take_append_drop,
            Numeral.digitsValue_eq, value, List.length_drop]
          congr 2
          omega
      · next behind =>
          refine ⟨⟨c, e⟩, ?_, rfl⟩
          have fraction : ∀ k ∈
              List.replicate (-((Nat.toDigits 10 c).length + e)).toNat '0' ++ Nat.toDigits 10 c,
              k.isDigit = true :=
            List.forall_mem_append.mpr ⟨zeros _, digits⟩
          have read : scientific? (['0'] ++ '.' :: _) = _ :=
            scientific?_broken (by simp) (List.forall_mem_singleton.mpr rfl) fraction
          have zero : Nat.ofDigitChars 10 ['0'] 0 = 0 := rfl
          rw [Numeral.digitsValue_eq, Nat.ofDigitChars_append, zero, Nat.ofDigitChars_append,
            Nat.ofDigitChars_replicate_zero, Nat.mul_zero, value] at read
          refine read.trans ?_
          rw [List.length_append, List.length_replicate]
          congr 2
          omega

-----------------------------------------------------------------------------------------
-- Written numbers
-----------------------------------------------------------------------------------------

/-- A decimal in positional form starts with a digit and consists of digits and a point. -/
theorem positional_chars (d : Scientific)
    : (∃ c rest, d.positional = c :: rest ∧ c.isDigit = true)
      ∧ ∀ k ∈ d.positional, k.isDigit = true ∨ k = '.' := by
  have digits : ∀ k ∈ Nat.toDigits 10 d.coefficient, k.isDigit = true :=
    fun _ => Numeral.isDigit_of_mem_toDigits
  obtain ⟨c, rest, front⟩ := List.exists_cons_of_ne_nil
    (Nat.toDigits_ne_nil (n := d.coefficient) (b := 10))
  have first : c.isDigit = true := digits c (by rw [front]; exact List.mem_cons_self)
  simp only [Scientific.positional]
  split
  · constructor
    · exact ⟨c, _, by rw [front, List.cons_append], first⟩
    · intro k member
      rcases List.mem_append.mp member with digit | zero
      · exact Or.inl (digits k digit)
      · rw [List.eq_of_mem_replicate zero]
        exact Or.inl rfl
  · split
    · next ahead =>
        constructor
        · obtain ⟨n, count⟩ : ∃ n, ((Nat.toDigits 10 d.coefficient).length + d.exponent).toNat
              = n + 1 := ⟨_, (Nat.succ_pred (by omega)).symm⟩
          exact ⟨c, _, by rw [count, front, List.take_succ_cons, List.cons_append], first⟩
        · intro k member
          rcases List.mem_append.mp member with digit | other
          · exact Or.inl (digits k (List.mem_of_mem_take digit))
          · rcases List.mem_cons.mp other with point | digit
            · exact Or.inr point
            · exact Or.inl (digits k (List.mem_of_mem_drop digit))
    · constructor
      · exact ⟨'0', _, rfl, rfl⟩
      · intro k member
        simp only [List.cons_append, List.mem_cons, List.mem_append, List.mem_replicate] at member
        rcases member with rfl | rfl | ⟨_, rfl⟩ | digit
        · exact Or.inl rfl
        · exact Or.inr rfl
        · exact Or.inl rfl
        · exact Or.inl (digits k digit)

/-- A decimal with the bits of a magnitude makes the number with these bits and the sign. -/
theorem toFloat_of_bits {x : Float} {value : Binary} {d : Scientific}
    (bits : d.bits = value.magnitudeBits)
    (whole : value.magnitudeBits + (if value.negative then 9223372036854775808 else 0)
      = x.toBits.toNat)
    : d.toFloat value.negative = x := by
  have same : d.bits + (if value.negative then Nat.pow 2 63 else 0) = x.toBits.toNat := by
    rw [bits, ← whole]
  rw [Scientific.toFloat, same, UInt64.ofNat_toNat, Float.ofBits_toBits]

/-- What is written of a finite number behind its sign: it starts with a digit, and it is read
as a decimal with the bits of the magnitude.
-/
theorem displayFinite_eq {value : Binary} (canonical : value.Canonical)
    : ∃ c rest d,
        displayFinite
            (value.magnitudeBits + if value.negative then 9223372036854775808 else 0) value
          = (if value.negative then ['-'] else []) ++ c :: rest
        ∧ c.isDigit = true
        ∧ (∀ k ∈ c :: rest, k.isDigit = true ∨ k = '.')
        ∧ scientific? (c :: rest) = some d
        ∧ d.bits = value.magnitudeBits := by
  have most := canonical.most
  have below := canonical.below
  by_cases zero : value.significand = 0
  · refine ⟨'0', [], ⟨0, 0⟩, ?_, rfl, ?_, rfl, ?_⟩
    · simp [displayFinite, zero]
    · simp
    · rcases canonical.full with lowest | full
      · simp [Binary.magnitudeBits, lowest, zero, Scientific.bits]
      · omega
  · have magnitude : (value.magnitudeBits + if value.negative then 9223372036854775808 else 0)
        % Nat.pow 2 63 = value.magnitudeBits := by
      have bound : value.magnitudeBits < 9223372036854775808 := by
        simp only [Binary.magnitudeBits]
        omega
      change _ % 9223372036854775808 = _
      split <;> omega
    obtain ⟨⟨c, rest, chars, digit⟩, all⟩ := positional_chars (shortest value.magnitudeBits value)
    obtain ⟨d, read, bits⟩ := scientific?_positional (shortest value.magnitudeBits value)
    rw [chars] at all read
    refine ⟨c, rest, d, ?_, digit, all, read, ?_⟩
    · simp only [displayFinite, if_neg zero, magnitude, chars]
    · rw [bits, bits_shortest canonical zero]

/-- A row of characters that starts with a digit has no sign. -/
theorem float?_of_isDigit {s : String} {c : Char} {rest : List Char}
    (chars : s.toList = c :: rest) (digit : c.isDigit = true)
    : float? s = unsigned? false (c :: rest) := by
  unfold float?
  rw [chars]
  split
  · next head =>
      obtain rfl := (List.cons.inj head).1
      exact absurd digit (by decide)
  · next head =>
      obtain rfl := (List.cons.inj head).1
      exact absurd digit (by decide)
  · rfl

/-- A finite number is written with digits, a point and a minus sign. -/
theorem display_chars {x : Float} (finite : x.isFinite = true)
    : (display x).toList ≠ []
      ∧ ∀ k ∈ (display x).toList, k.isDigit = true ∨ k = '.' ∨ k = '-' := by
  obtain ⟨value, reading, canonical, bits⟩ := ofFloat_of_isFinite finite
  obtain ⟨c, rest, d, written, digit, all, read, same⟩ := displayFinite_eq canonical
  have chars : (display x).toList = (if value.negative then ['-'] else []) ++ c :: rest := by
    rw [display, reading, ← bits, String.toList_ofList, written]
  rw [chars]
  constructor
  · simp
  · intro k member
    rcases List.mem_append.mp member with sign | other
    · cases negative : value.negative with
      | false => simp [negative] at sign
      | true => simp_all
    · exact (all k other).imp_right Or.inl

/-- A finite number is read back from its written form. -/
theorem float?_display {x : Float} (finite : x.isFinite = true)
    : float? (display x) = some x := by
  obtain ⟨value, reading, canonical, bits⟩ := ofFloat_of_isFinite finite
  obtain ⟨c, rest, d, written, digit, all, read, same⟩ := displayFinite_eq canonical
  have chars : (display x).toList = (if value.negative then ['-'] else []) ++ c :: rest := by
    rw [display, reading, ← bits, String.toList_ofList, written]
  have made := toFloat_of_bits same bits
  cases negative : value.negative with
  | false =>
      rw [negative] at chars made
      rw [float?_of_isDigit chars digit, unsigned?, read]
      exact congrArg some made
  | true =>
      rw [negative] at chars made
      simp only [float?, chars, unsigned?, read, if_true, List.cons_append, List.nil_append]
      exact congrArg some made

end PixelTree.Decimal
