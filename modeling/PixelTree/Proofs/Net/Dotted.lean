import PixelTree.Net.Ipv4
import PixelTree.Proofs.Digits

/-! Network addresses read back from their dotted form. -/

namespace PixelTree.Net.Ipv4

open Text

theorem splitPoints_of_forall {part : List Char} (pointless : ∀ c ∈ part, c ≠ '.')
    : splitPoints part = [part] := by
  induction part with
  | nil => rfl
  | cons c rest ih =>
      rw [splitPoints, ih (fun d member => pointless d (List.mem_cons_of_mem _ member))]
      simp [pointless c List.mem_cons_self]

/-- A part without points ends at the first point, by induction over the part. -/
theorem splitPoints_append {part : List Char} (pointless : ∀ c ∈ part, c ≠ '.')
    (rest : List Char)
    : splitPoints (part ++ '.' :: rest) = part :: splitPoints rest := by
  induction part with
  | nil =>
      rw [List.nil_append, splitPoints]
      split
      · next none =>
          cases rest with
          | nil => cases none
          | cons d others =>
              rw [splitPoints] at none
              split at none
              · cases none
              · split at none <;> cases none
      · next first others some => simp [some]
  | cons c cs ih =>
      have tail := ih (fun d member => pointless d (List.mem_cons_of_mem _ member))
      rw [List.cons_append, splitPoints, tail]
      simp [pointless c List.mem_cons_self]

/-- An octet is read back from its digits: there are at most three of them, and only zero starts
with a zero.
-/
theorem octet?_octetText (octet : UInt8) : octet? (octetText octet).toList = some octet := by
  have each : ∀ n : Fin 256, octet? (Nat.toDigits 10 n) = some (UInt8.ofNat n) := by
    decide +kernel
  have read := each ⟨octet.toNat, octet.toNat_lt⟩
  rwa [UInt8.ofNat_toNat, ← Numeral.toList_decimal] at read

theorem toList_display (ip : Ipv4)
    : ip.display.toList
      = (octetText ip.a).toList
        ++ '.' :: ((octetText ip.b).toList
          ++ '.' :: ((octetText ip.c).toList ++ '.' :: (octetText ip.d).toList)) := by
  simp only [display, String.toList_append, toString, String.toList_append]
  simp

/-- The dotted form consists of digits and points. -/
theorem display_chars (ip : Ipv4)
    : ∀ c ∈ ip.display.toList, c.isDigit = true ∨ c = '.' := by
  have digit : ∀ octet : UInt8, ∀ c ∈ (octetText octet).toList, c.isDigit = true ∨ c = '.' := by
    intro octet c member
    rw [octetText, Numeral.toList_decimal] at member
    exact Or.inl (Numeral.isDigit_of_mem_toDigits member)
  intro c member
  rw [toList_display] at member
  simp only [List.mem_append, List.mem_cons] at member
  rcases member with inA | point | inB | point | inC | point | inD
  · exact digit ip.a c inA
  · exact Or.inr point
  · exact digit ip.b c inB
  · exact Or.inr point
  · exact digit ip.c c inC
  · exact Or.inr point
  · exact digit ip.d c inD

theorem tidy_display (ip : Ipv4) : Tidy ip.display.toList := by
  apply Tidy.of_forall
  · rw [toList_display]
    simp
  · intro c member
    rcases display_chars ip c member with digit | rfl
    · exact isBlank_eq_false_of_isDigit digit
    · decide

/-- An address is read back from its dotted form. -/
theorem parse?_display (ip : Ipv4) : parse? ip.display = some ip := by
  have pointless : ∀ octet : UInt8, ∀ c ∈ (octetText octet).toList, c ≠ '.' := by
    intro octet c member point
    rw [octetText, Numeral.toList_decimal] at member
    have digit := Numeral.isDigit_of_mem_toDigits member
    rw [point] at digit
    exact absurd digit (by decide)
  have parts : splitPoints ip.display.toList
      = [(octetText ip.a).toList, (octetText ip.b).toList, (octetText ip.c).toList,
          (octetText ip.d).toList] := by
    rw [toList_display, splitPoints_append (pointless ip.a), splitPoints_append (pointless ip.b),
      splitPoints_append (pointless ip.c), splitPoints_of_forall (pointless ip.d)]
  simp only [parse?, parts, octet?_octetText]
  rfl

-----------------------------------------------------------------------------------------
-- No other text is read
-----------------------------------------------------------------------------------------

/-- Points between the parts that a text was cut into make the text, by induction over it. -/
theorem intercalate_splitPoints (cs : List Char) : ['.'].intercalate (splitPoints cs) = cs := by
  induction cs with
  | nil => rfl
  | cons c rest ih =>
      unfold splitPoints
      split
      · next none =>
          rw [none] at ih
          rw [← ih]
          rfl
      · next part parts some =>
          rw [some] at ih
          by_cases point : c = '.'
          · rw [if_pos point, List.intercalate_cons_cons, ih, point]
            rfl
          · rw [if_neg point, ← ih]
            cases parts with
            | nil => rfl
            | cons next others =>
                rw [List.intercalate_cons_cons, List.intercalate_cons_cons]
                rfl

/-- An octet is read from its own digits only: a zero in front of others is refused. -/
theorem octet?_eq_some_iff {cs : List Char} {octet : UInt8}
    : octet? cs = some octet ↔ cs = (octetText octet).toList := by
  constructor
  · intro read
    unfold octet? at read
    split at read
    · cases read
    · next plain =>
        obtain ⟨n, found, rfl⟩ := Option.map_eq_some_iff.mp read
        obtain ⟨row, below⟩ := Option.filter_eq_some_iff.mp found
        obtain ⟨zeros, rfl⟩ := Numeral.digits?_eq_some_iff.mp row
        have small : n < 256 := of_decide_eq_true below
        have written : (octetText (UInt8.ofNat n)).toList = Nat.toDigits 10 n := by
          rw [octetText, Numeral.toList_decimal, UInt8.toNat_ofNat', Nat.mod_eq_of_lt small]
        cases zeros with
        | zero => rw [written]; rfl
        | succ zeros =>
            have digits := List.length_pos_iff.mpr (Nat.toDigits_ne_nil (n := n) (b := 10))
            refine absurd (Or.inr ⟨?_, rfl⟩) plain
            rw [Numeral.digitRow, List.length_append, List.length_replicate]
            omega
  · rintro rfl
    exact octet?_octetText octet

/-- An address is read from its dotted form and from no other text. -/
theorem parse?_eq_some_iff {s : String} {ip : Ipv4} : parse? s = some ip ↔ s = ip.display := by
  constructor
  · intro read
    unfold parse? at read
    split at read
    · next a b c d parts =>
        obtain ⟨octetA, readA, read⟩ := Option.bind_eq_some_iff.mp read
        obtain ⟨octetB, readB, read⟩ := Option.bind_eq_some_iff.mp read
        obtain ⟨octetC, readC, read⟩ := Option.bind_eq_some_iff.mp read
        obtain ⟨octetD, readD, read⟩ := Option.bind_eq_some_iff.mp read
        cases read
        have whole := intercalate_splitPoints s.toList
        rw [parts, octet?_eq_some_iff.mp readA, octet?_eq_some_iff.mp readB,
          octet?_eq_some_iff.mp readC, octet?_eq_some_iff.mp readD] at whole
        apply String.toList_injective
        rw [← whole, toList_display]
        simp [List.intercalate_cons_cons]
    · cases read
  · rintro rfl
    exact ip.parse?_display

end PixelTree.Net.Ipv4
