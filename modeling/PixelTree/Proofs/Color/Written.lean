import PixelTree.Color.Parser
import PixelTree.Proofs.Text.Trimming

/-! Colors read back from their written form, which keeps their 8-bit levels and nothing else. -/

namespace PixelTree

namespace Numeral

theorem hexValue?_digitChar {d : Nat} (small : d < 16) : hexValue? (Nat.digitChar d) = some d := by
  have each : ∀ d : Fin 16, hexValue? (Nat.digitChar d) = some (d : Nat) := by decide
  exact each ⟨d, small⟩

/-- Hexadecimal digits are visible characters of ASCII other than signs and letters past f. -/
theorem digitChar_bounds {d : Nat} (small : d < 16)
    : ('0' ≤ Nat.digitChar d ∧ Nat.digitChar d ≤ '9')
      ∨ ('a' ≤ Nat.digitChar d ∧ Nat.digitChar d ≤ 'f') := by
  have each : ∀ d : Fin 16,
      ('0' ≤ Nat.digitChar d ∧ Nat.digitChar d ≤ '9')
        ∨ ('a' ≤ Nat.digitChar d ∧ Nat.digitChar d ≤ 'f') := by
    decide
  exact each ⟨d, small⟩

/-- A byte is read back from its two digits. -/
theorem hexPair?_hexByte (b : UInt8)
    : hexPair? (Nat.digitChar (b.toNat / 16)) (Nat.digitChar (b.toNat % 16)) = some b := by
  have bound : b.toNat < 256 := b.toNat_lt
  have high : b.toNat / 16 < 16 := by omega
  have low : b.toNat % 16 < 16 := by omega
  have noSign : Nat.digitChar (b.toNat / 16) ≠ '+' := by
    intro sign
    have bounds := digitChar_bounds high
    rw [sign] at bounds
    exact absurd bounds (by decide)
  have halves : 16 * (b.toNat / 16) + b.toNat % 16 = b.toNat := by omega
  rw [hexPair?, if_neg noSign, hexValue?_digitChar high, hexValue?_digitChar low]
  change some (UInt8.ofNat (16 * (b.toNat / 16) + b.toNat % 16)) = some b
  rw [halves, UInt8.ofNat_toNat]

end Numeral

namespace Color

open Text

/-- The color with exactly the 8-bit levels of a color for its channels. -/
def rounded (c : Color) : Color :=
  ofLevels (level c.red) (level c.green) (level c.blue)

theorem level_channel (b : UInt8) : level (channel b) = b := by
  have each : ∀ n : Fin 256, level (channel (UInt8.ofNat n)) = UInt8.ofNat n := by
    decide +kernel
  have at_b := each ⟨b.toNat, b.toNat_lt⟩
  rwa [UInt8.ofNat_toNat] at at_b

@[simp] theorem levels_rounded (c : Color) : c.rounded.levels = c.levels := by
  simp only [levels, rounded, ofLevels, level_channel]

@[simp] theorem display_rounded (c : Color) : c.rounded.display = c.display := by
  rw [display, levels_rounded, display]

/-- The characters of a written color are a number sign and the digits of its levels. -/
theorem toList_display (c : Color)
    : c.display.toList = '#' :: c.levels.flatMap Numeral.hexByte := by
  simp only [display, Numeral.hexBytes, String.toList_append, String.toList_ofList]
  rfl

/-- The characters of a written color are small hexadecimal digits behind a number sign. -/
theorem display_chars (c : Color)
    : ∀ k ∈ c.display.toList,
        k = '#' ∨ ('0' ≤ k ∧ k ≤ '9') ∨ ('a' ≤ k ∧ k ≤ 'f') := by
  intro k member
  rw [toList_display] at member
  rcases List.mem_cons.mp member with sign | digit
  · exact Or.inl sign
  · obtain ⟨b, _, digit⟩ := List.mem_flatMap.mp digit
    have bound : b.toNat < 256 := b.toNat_lt
    simp only [Numeral.hexByte, List.mem_cons, List.not_mem_nil, or_false] at digit
    right
    rcases digit with rfl | rfl
    · exact Numeral.digitChar_bounds (by omega)
    · exact Numeral.digitChar_bounds (by omega)

/-- The characters of a written color are visible characters of ASCII. -/
theorem display_visible (c : Color)
    : ∀ k ∈ c.display.toList, 33 ≤ k.toNat ∧ k.toNat ≤ 126 := by
  intro k member
  rcases display_chars c k member with rfl | ⟨low, high⟩ | ⟨low, high⟩
  · decide
  · have low : 48 ≤ k.toNat := low
    have high : k.toNat ≤ 57 := high
    omega
  · have low : 97 ≤ k.toNat := low
    have high : k.toNat ≤ 102 := high
    omega

theorem tidy_display (c : Color) : Tidy c.display.toList := by
  apply Tidy.of_forall
  · rw [toList_display]
    exact List.cons_ne_nil _ _
  · intro k member
    have visible := display_visible c k member
    exact isBlank_eq_false_of_visible visible.1 visible.2

/-- A color is read back from its written form up to rounding. -/
theorem parse_display (c : Color) : parse c.display = .ok c.rounded := by
  have chars := toList_display c
  have ascii : ¬ ((c.levels.flatMap Numeral.hexByte).length ≠ 6
      ∨ (c.levels.flatMap Numeral.hexByte).any (fun k => 127 < k.toNat) = true) := by
    rintro (length | high)
    · exact length rfl
    · obtain ⟨k, member, high⟩ := List.any_eq_true.mp high
      have visible := display_visible c k (by rw [chars]; exact List.mem_cons_of_mem _ member)
      have high := of_decide_eq_true high
      omega
  have read : ofHex? (c.levels.flatMap Numeral.hexByte) = some c.rounded := by
    simp only [levels, Numeral.hexByte, List.flatMap_cons, List.flatMap_nil, List.cons_append,
      List.nil_append, ofHex?, Numeral.hexPair?_hexByte]
    rfl
  simp only [parse, trim_eq_of_tidy (tidy_display c), chars]
  rw [if_neg ascii, read]
  rfl

end Color

end PixelTree
