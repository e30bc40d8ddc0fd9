import PixelTree.Json.Printer
import PixelTree.Json.Reader
import PixelTree.Proofs.Color.Written
import PixelTree.Proofs.Digits
import PixelTree.Proofs.Text.Reading

/-! Quoted texts and natural numbers read back from JSON, whatever characters a text has. -/

namespace PixelTree.Json.Reading

open Text Text.Reader

-----------------------------------------------------------------------------------------
-- Texts
-----------------------------------------------------------------------------------------

/-- The element that stands for a character in a text: the character, or its number. -/
inductive Unit16.Means : Unit16 → Char → Prop where
  | char (c : Char) : Means (.char c) c
  | escaped {c : Char} (control : c.toNat < 0x20) : Means (.escaped c.toNat) c

/-- Elements that stand for the characters of a text are put together again. -/
theorem assemble_of_means {units : List Unit16} {cs : List Char}
    (means : List.Forall₂ Unit16.Means units cs)
    : assemble units = some cs := by
  induction means with
  | nil => rfl
  | @cons unit c units cs first later ih =>
      cases first with
      | char =>
          rw [assemble, ih]
          rfl
      | escaped control =>
          have low : ¬ 0xD800 ≤ c.toNat := by omega
          -- Only the element behind an escaped one decides which of the rules is used.
          cases later with
          | nil => simp [assemble, low]
          | cons second later =>
              cases second with
              | char c' =>
                  rw [assemble, ih, Option.map_some, Char.ofNat_toNat]
                  all_goals simp [low]
              | escaped control' =>
                  have low' : ¬ 0xDC00 ≤ c.toNat := by omega
                  rw [assemble, if_neg (fun bounds => low bounds.1),
                    if_neg (fun bounds => low' bounds.1), ih, Option.map_some, Char.ofNat_toNat]

/-- A control character is read back from the four digits of its number, the first two zeros. -/
theorem run_hex4 {c : Char} (control : c.toNat < 0x20) (rest : List Char)
    : hex4.run ('0' :: '0' :: Numeral.hexByte (UInt8.ofNat c.toNat) ++ rest)
      = some (c.toNat, rest) := by
  have byte : (UInt8.ofNat c.toNat).toNat = c.toNat := Nat.mod_eq_of_lt (by omega)
  have zero : Numeral.hexValue? '0' = some 0 := rfl
  have high := Numeral.hexValue?_digitChar (d := c.toNat / 16) (by omega)
  have low := Numeral.hexValue?_digitChar (d := c.toNat % 16) (by omega)
  simp [hex4, StateT.run_bind, run_next, Numeral.hexByte, byte, zero, high, low]
  omega

/-- The written form of a character is read as one element, which stands for it. -/
theorem exists_textStep (units : List Unit16) (c : Char) (rest : List Char)
    : ∃ unit : Unit16,
        unit.Means c
        ∧ (textStep units).run (escapeChar c ++ rest) = some (.inl (unit :: units), rest) := by
  unfold escapeChar
  split_ifs with quote backslash backspace formFeed newline carriage tab control
  -- Seven characters have an escape of their own.
  all_goals try
    subst c
    exact ⟨_, .char _, rfl⟩
  · refine ⟨_, .escaped control, ?_⟩
    have escaped : escape.run ('u' :: '0' :: '0' :: Numeral.hexByte (UInt8.ofNat c.toNat) ++ rest)
        = some (.escaped c.toNat, rest) :=
      run_bind_of_run (run_hex4 control rest) (fun number => pure (Unit16.escaped number))
    exact run_bind_of_run escaped (fun unit => pure (Sum.inl (unit :: units)))
  · refine ⟨_, .char c, ?_⟩
    rw [textStep, List.singleton_append, run_bind_of_run (run_next c rest)]
    split
    · contradiction
    · contradiction
    · rw [if_neg control]
      rfl

theorem length_le_flatMap_escapeChar (cs : List Char)
    : cs.length ≤ (cs.flatMap escapeChar).length := by
  induction cs with
  | nil => rfl
  | cons c cs ih =>
      have some : 1 ≤ (escapeChar c).length := by
        unfold escapeChar
        split_ifs <;> simp
      rw [List.flatMap_cons, List.length_append, List.length_cons]
      omega

/-- The elements of a quoted text stand for its characters, by induction over these. -/
theorem exists_repeated_textStep (cs : List Char) {bound : List Char}
    (enough : cs.length < bound.length) (units : List Unit16) (rest : List Char)
    : ∃ more,
        List.Forall₂ Unit16.Means more cs
        ∧ (repeated textStep bound units).run (cs.flatMap escapeChar ++ '"' :: rest)
          = some (units.reverse ++ more, rest) := by
  induction cs generalizing bound units with
  | nil =>
      obtain ⟨bit, bound, rfl⟩ := List.exists_cons_of_length_pos enough
      have closed : (textStep units).run ('"' :: rest) = some (.inr units.reverse, rest) := rfl
      refine ⟨[], .nil, ?_⟩
      rw [List.append_nil]
      exact run_repeated_inr closed bit bound
  | cons c cs ih =>
      obtain ⟨bit, bound, rfl⟩ := List.exists_cons_of_length_pos (Nat.zero_lt_of_lt enough)
      obtain ⟨unit, means, taken⟩ := exists_textStep units c (cs.flatMap escapeChar ++ '"' :: rest)
      obtain ⟨more, later, run⟩ := ih (Nat.lt_of_succ_lt_succ enough) (unit :: units)
      refine ⟨unit :: more, .cons means later, ?_⟩
      rw [List.flatMap_cons, List.append_assoc, run_repeated_inl taken, run, List.reverse_cons,
        List.append_assoc]
      rfl

/-- A text is read back behind its opening quote. -/
theorem run_text (s : String) (rest : List Char)
    : text.run (s.toList.flatMap escapeChar ++ '"' :: rest) = some (some s, rest) := by
  have enough : s.toList.length
      < (' ' :: (s.toList.flatMap escapeChar ++ '"' :: rest)).length := by
    have longer := length_le_flatMap_escapeChar s.toList
    simp only [List.length_cons, List.length_append]
    omega
  obtain ⟨units, means, run⟩ := exists_repeated_textStep s.toList enough [] rest
  have looped : (loop textStep []).run (s.toList.flatMap escapeChar ++ '"' :: rest)
      = some (units, rest) :=
    run
  rw [text, run_bind_of_run looped, assemble_of_means means, Option.map_some, String.ofList_toList]
  rfl

-----------------------------------------------------------------------------------------
-- Numbers
-----------------------------------------------------------------------------------------

/-- What follows a printed value: a comma, a line break, or nothing. -/
def Stops (rest : List Char) : Prop :=
  ∀ c ∈ rest.head?, c = ',' ∨ c = '\n'

theorem Stops.isDigit_eq {rest : List Char} (stops : Stops rest)
    : ∀ c ∈ rest.head?, c.isDigit = false := by
  intro c next
  rcases stops c next with rfl | rfl <;> decide

/-- The digits of a number are at least one. -/
theorem exists_digits (n : Nat)
    : ∃ c cs, Nat.toDigits 10 n = c :: cs ∧ ∀ d ∈ c :: cs, d.isDigit = true := by
  obtain ⟨c, cs, row⟩ := List.exists_cons_of_ne_nil (Nat.toDigits_ne_nil (b := 10) (n := n))
  exact ⟨c, cs, row, fun _ member => Numeral.isDigit_of_mem_toDigits (row ▸ member)⟩

theorem run_digits {c : Char} {cs rest : List Char} (digits : ∀ d ∈ c :: cs, d.isDigit = true)
    (stops : Stops rest)
    : Reading.digits.run (c :: cs ++ rest) = some (c :: cs, rest) := by
  obtain ⟨first, later⟩ := List.forall_mem_cons.mp digits
  rw [Reading.digits, List.cons_append, run_bind_of_run (run_satisfying first (cs ++ rest)),
    run_bind_of_run (run_span later stops.isDigit_eq)]
  rfl

theorem run_fraction {rest : List Char} (stops : Stops rest)
    : fraction.run rest = some ([], rest) := by
  have pointless : ∀ c ∈ rest.head?, c ≠ '.' := by
    intro c next
    rcases stops c next with rfl | rfl <;> decide
  rw [fraction, run_bind_of_run (run_takes_of_ne pointless)]
  rfl

theorem run_exponent {rest : List Char} (stops : Stops rest)
    : exponent.run rest = some ([], rest) := by
  rw [exponent, run_bind_of_run (run_peek? rest)]
  cases rest with
  | nil => rfl
  | cons c rest => rcases stops c rfl with rfl | rfl <;> rfl

/-- The digits of a number are taken as a whole: only zero is written with a zero in front. -/
theorem run_whole (n : Nat) {rest : List Char} (stops : Stops rest)
    : whole.run (Nat.toDigits 10 n ++ rest) = some (Nat.toDigits 10 n, rest) := by
  rcases Nat.eq_zero_or_pos n with rfl | positive
  · rw [Nat.toDigits_zero, whole, List.singleton_append, run_bind_of_run (run_takes '0' rest)]
    rfl
  · have nonzero := Numeral.head?_toDigits_ne positive
    obtain ⟨c, cs, row, digits⟩ := exists_digits n
    rw [row] at nonzero ⊢
    have differs : ∀ d ∈ (c :: cs ++ rest).head?, d ≠ '0' := by
      rintro d next rfl
      exact nonzero next
    rw [whole, run_bind_of_run (run_takes_of_ne differs)]
    exact run_digits digits stops

/-- A number is read back if something follows that ends it. -/
theorem run_number (n : Nat) {rest : List Char} (stops : Stops rest)
    : number.run ((Numeral.decimal n).toList ++ rest) = some (Numeral.decimal n, rest) := by
  have unsigned : ∀ c ∈ (Nat.toDigits 10 n ++ rest).head?, c ≠ '-' := by
    rintro c next rfl
    rw [List.head?_append_of_ne_nil _ Nat.toDigits_ne_nil] at next
    have digit := Numeral.isDigit_of_mem_toDigits (List.mem_of_mem_head? next)
    exact absurd digit (by decide)
  rw [Numeral.toList_decimal, number, run_bind_of_run (run_takes_of_ne unsigned)]
  simp only [Bool.false_eq_true, if_false]
  rw [run_bind_of_run (run_whole n stops), run_bind_of_run (run_fraction stops),
    run_bind_of_run (run_exponent stops)]
  simp [Numeral.decimal]

end PixelTree.Json.Reading
