import PixelTree.Numeral
import PixelTree.Proofs.Text.Trimming

/-! Numbers read back from the digits that they are written in. -/

namespace PixelTree.Numeral

open Text

theorem isDigit_of_mem_toDigits {n : Nat} {c : Char} (member : c ∈ Nat.toDigits 10 n)
    : c.isDigit = true :=
  Nat.isDigit_of_mem_toDigits (by decide) (by decide) member

/-- The value of a row of digits is the one that the standard library computes. -/
theorem digitsValue_eq (cs : List Char) : digitsValue cs = Nat.ofDigitChars 10 cs 0 :=
  rfl

theorem digits?_of_forall {cs : List Char} (nonempty : cs ≠ [])
    (digits : ∀ c ∈ cs, c.isDigit = true)
    : digits? cs = some (digitsValue cs) := by
  rw [digits?, if_pos ⟨nonempty, List.all_eq_true.mpr digits⟩]

theorem digits?_toDigits (n : Nat) : digits? (Nat.toDigits 10 n) = some n := by
  rw [digits?_of_forall Nat.toDigits_ne_nil (fun _ => isDigit_of_mem_toDigits),
    digitsValue_eq, Nat.ofDigitChars_ten_toDigits]

/-- A row of digits does not start with a sign, so the optional plus is not there. -/
theorem plusDigits?_of_forall {cs : List Char} (digits : ∀ c ∈ cs, c.isDigit = true)
    : plusDigits? cs = digits? cs := by
  unfold plusDigits?
  split
  · have plus := digits '+' List.mem_cons_self
    exact absurd plus (by decide)
  · rfl

/-- The digits of a positive number do not start with a zero, by induction over its tenths. -/
theorem head?_toDigits_ne {n : Nat} (positive : 0 < n) : (Nat.toDigits 10 n).head? ≠ some '0' := by
  induction n using Nat.strongRecOn with
  | ind n ih =>
      rcases Nat.lt_or_ge n 10 with single | several
      · rw [Nat.toDigits_of_lt_base single]
        interval_cases n <;> decide
      · have tenths : 0 < n / 10 := by omega
        have last : n % 10 < 10 := by omega
        have front : (Nat.toDigits 10 n).head? = (Nat.toDigits 10 (n / 10)).head? := by
          rw [← Nat.div_add_mod n 10, ← Nat.toDigits_append_toDigits (by decide) tenths last,
            List.head?_append_of_ne_nil _ Nat.toDigits_ne_nil]
          congr 2
          omega
        rw [front]
        exact ih (n / 10) (by omega) tenths

@[simp] theorem toList_decimal (n : Nat) : (decimal n).toList = Nat.toDigits 10 n := by
  rw [decimal, String.toList_ofList]

/-- A written number is tidy, for its digits are no blanks. -/
theorem tidy_decimal (n : Nat) : Tidy (decimal n).toList := by
  rw [toList_decimal]
  exact Tidy.of_forall Nat.toDigits_ne_nil
    (fun _ member => isBlank_eq_false_of_isDigit (isDigit_of_mem_toDigits member))

/-- A written number is read back by a reader with a limit exactly if it is below that. -/
theorem natural?_decimal_eq (limit n : Nat)
    : natural? limit (decimal n) = if n < limit then some n else none := by
  rw [natural?, toList_decimal, plusDigits?_of_forall (fun _ => isDigit_of_mem_toDigits),
    digits?_toDigits]
  by_cases below : n < limit
  · simp [Option.filter, below]
  · simp [Option.filter, below]

theorem natural?_decimal {limit n : Nat} (below : n < limit)
    : natural? limit (decimal n) = some n := by
  rw [natural?_decimal_eq, if_pos below]

theorem word?_decimal {n : Nat} (below : n < wordLimit) : word? (decimal n) = some n :=
  natural?_decimal below

/-- A written number is read back as a signed word exactly if a signed word can hold it. -/
theorem signed?_decimal_eq (n : Nat)
    : signed? (decimal n) = if n < signedLimit then some (n : Int) else none := by
  unfold signed?
  rw [toList_decimal]
  split
  · next cs front =>
      have minus : ('-' : Char).isDigit = true :=
        isDigit_of_mem_toDigits (n := n) (by rw [front]; exact List.mem_cons_self)
      exact absurd minus (by decide)
  · rw [plusDigits?_of_forall (fun _ => isDigit_of_mem_toDigits), digits?_toDigits]
    by_cases below : n < signedLimit
    · simp [Option.filter, below]
    · simp [Option.filter, below]

/-- The text of a signed word is read back. -/
theorem signed?_decimalInt {i : Int} (least : -(signedLimit : Int) ≤ i)
    (most : i < (signedLimit : Int))
    : signed? (decimalInt i) = some i := by
  cases i with
  | ofNat n =>
      rw [decimalInt, signed?_decimal_eq, if_pos (Int.ofNat_lt.mp most)]
      rfl
  | negSucc n =>
      have chars : (decimalInt (.negSucc n)).toList = '-' :: Nat.toDigits 10 (n + 1) := by
        rw [decimalInt, String.toList_append, toList_decimal]
        rfl
      have fits : n + 1 ≤ signedLimit := by omega
      rw [signed?, chars]
      simp only [digits?_toDigits, Option.filter, fits, decide_true, if_true]
      rfl

theorem lt_of_natural? {limit n : Nat} {s : String} (read : natural? limit s = some n)
    : n < limit := by
  unfold natural? at read
  have within := (Option.filter_eq_some_iff.mp read).2
  exact of_decide_eq_true within

theorem lt_of_word? {s : String} {n : Nat} (read : word? s = some n) : n < wordLimit :=
  lt_of_natural? read

-----------------------------------------------------------------------------------------
-- All texts of a number
-----------------------------------------------------------------------------------------

/-- A row of digits with a number as its value: the number's own digits, behind any number of
zeros.
-/
def digitRow (zeros n : Nat) : List Char :=
  List.replicate zeros '0' ++ Nat.toDigits 10 n

/-- The texts of a number: a row of its digits, with or without a plus sign in front. -/
inductive Spells : List Char → Nat → Prop where
  | plain (zeros n : Nat) : Spells (digitRow zeros n) n
  | plus (zeros n : Nat) : Spells ('+' :: digitRow zeros n) n

theorem isDigit_of_mem_digitRow {zeros n : Nat} {c : Char} (member : c ∈ digitRow zeros n)
    : c.isDigit = true := by
  rcases List.mem_append.mp member with zero | digit
  · rw [(List.mem_replicate.mp zero).2]
    decide
  · exact isDigit_of_mem_toDigits digit

theorem digitRow_ne_nil (zeros n : Nat) : digitRow zeros n ≠ [] :=
  List.append_ne_nil_of_right_ne_nil _ Nat.toDigits_ne_nil

/-- A digit is the one that is written for its value. -/
theorem digitChar_digitValue {c : Char} (digit : c.isDigit = true)
    : digitValue c < 10 ∧ Nat.digitChar (digitValue c) = c := by
  simp only [Char.isDigit, Bool.and_eq_true, decide_eq_true_eq] at digit
  have low : 48 ≤ c.toNat := digit.1
  have high : c.toNat ≤ 57 := digit.2
  have value : digitValue c = c.toNat - 48 := rfl
  have small : digitValue c < 10 := by omega
  refine ⟨small, Char.toNat_inj.mp ?_⟩
  rw [Nat.toNat_digitChar_of_lt_ten small]
  omega

theorem digitsValue_concat (cs : List Char) (c : Char)
    : digitsValue (cs ++ [c]) = 10 * digitsValue cs + digitValue c :=
  List.foldl_append ..

theorem digitsValue_digitRow (zeros n : Nat) : digitsValue (digitRow zeros n) = n := by
  induction zeros with
  | zero => rw [digitRow, List.replicate_zero, List.nil_append, digitsValue_eq,
      Nat.ofDigitChars_ten_toDigits]
  | succ zeros ih => exact ih

/-- One more digit behind a row makes a row: zero is the only number whose digit may have been
one of the zeros in front.
-/
theorem exists_digitRow_concat (zeros n : Nat) {c : Char} (digit : c.isDigit = true)
    : ∃ more, digitRow zeros n ++ [c] = digitRow more (10 * n + digitValue c) := by
  obtain ⟨small, written⟩ := digitChar_digitValue digit
  have last : Nat.toDigits 10 (digitValue c) = [c] := by
    rw [Nat.toDigits_of_lt_base small, written]
  rcases Nat.eq_zero_or_pos n with rfl | positive
  · refine ⟨zeros + 1, ?_⟩
    rw [digitRow, digitRow, Nat.mul_zero, Nat.zero_add, last, List.replicate_succ']
    rfl
  · refine ⟨zeros, ?_⟩
    rw [digitRow, digitRow, ← Nat.toDigits_append_toDigits (by decide) positive small, last,
      List.append_assoc]

/-- Every row of digits is one of its value, by induction over the row from its end. -/
theorem exists_digitRow {cs : List Char} (nonempty : cs ≠ [])
    (digits : ∀ c ∈ cs, c.isDigit = true)
    : ∃ zeros, cs = digitRow zeros (digitsValue cs) := by
  induction cs using List.reverseRecOn with
  | nil => exact absurd rfl nonempty
  | append_singleton front c ih =>
      obtain ⟨fronts, digit⟩ := List.forall_mem_append.mp digits
      have last := List.forall_mem_singleton.mp digit
      rw [digitsValue_concat]
      by_cases single : front = []
      · subst single
        obtain ⟨small, written⟩ := digitChar_digitValue last
        refine ⟨0, ?_⟩
        rw [digitRow, List.replicate_zero, digitsValue, List.foldl_nil, Nat.mul_zero,
          Nat.zero_add, Nat.toDigits_of_lt_base small, written]
      · obtain ⟨zeros, row⟩ := ih single fronts
        obtain ⟨more, longer⟩ := exists_digitRow_concat zeros (digitsValue front) last
        refine ⟨more, ?_⟩
        rw [← longer, ← row]

/-- Digits are read as a number exactly if they are a row of its digits. -/
theorem digits?_eq_some_iff {cs : List Char} {n : Nat}
    : digits? cs = some n ↔ ∃ zeros, cs = digitRow zeros n := by
  constructor
  · intro read
    unfold digits? at read
    split at read
    · next row =>
        obtain rfl := Option.some.inj read
        exact exists_digitRow row.1 (List.all_eq_true.mp row.2)
    · cases read
  · rintro ⟨zeros, rfl⟩
    rw [digits?_of_forall (digitRow_ne_nil zeros n) (fun _ => isDigit_of_mem_digitRow),
      digitsValue_digitRow]

/-- A text is read as a number exactly if it is one of the number's texts. -/
theorem plusDigits?_eq_some_iff {cs : List Char} {n : Nat}
    : plusDigits? cs = some n ↔ Spells cs n := by
  constructor
  · intro read
    unfold plusDigits? at read
    split at read
    · obtain ⟨zeros, rfl⟩ := digits?_eq_some_iff.mp read
      exact .plus zeros n
    · obtain ⟨zeros, rfl⟩ := digits?_eq_some_iff.mp read
      exact .plain zeros n
  · intro spelled
    cases spelled with
    | plain zeros =>
        rw [plusDigits?_of_forall (fun _ => isDigit_of_mem_digitRow)]
        exact digits?_eq_some_iff.mpr ⟨zeros, rfl⟩
    | plus zeros => exact digits?_eq_some_iff.mpr ⟨zeros, rfl⟩

/-- The texts of a number consist of digits and plus signs. -/
theorem Spells.chars {cs : List Char} {n : Nat} (spelled : Spells cs n)
    : ∀ c ∈ cs, c.isDigit = true ∨ c = '+' := by
  cases spelled with
  | plain zeros => exact fun c member => Or.inl (isDigit_of_mem_digitRow member)
  | plus zeros =>
      refine List.forall_mem_cons.mpr ⟨Or.inr rfl, ?_⟩
      exact fun c member => Or.inl (isDigit_of_mem_digitRow member)

theorem Spells.tidy {cs : List Char} {n : Nat} (spelled : Spells cs n) : Tidy cs := by
  apply Tidy.of_forall
  · cases spelled with
    | plain zeros => exact digitRow_ne_nil zeros n
    | plus zeros => exact List.cons_ne_nil _ _
  · intro c member
    rcases spelled.chars c member with digit | rfl
    · exact isBlank_eq_false_of_isDigit digit
    · decide

end PixelTree.Numeral
