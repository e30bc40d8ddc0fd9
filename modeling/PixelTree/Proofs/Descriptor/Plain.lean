import PixelTree.Catalog.Standard
import PixelTree.Proofs.Color.Written
import PixelTree.Proofs.Decimal.ReadBack
import PixelTree.Proofs.Descriptor.Printing

/-! Plain texts: arguments that every level of splitting, trimming and unquoting leaves alone.
Written numbers and colors are plain, and each is read back as an argument.
-/

namespace PixelTree.Descriptor

open Text

/-- A character that is no blank, no separator and no part of a quote or a group. -/
def isPlainChar (c : Char) : Bool :=
  !isBlank c && !Nesting.isStructural c && c != ',' && c != '|'

/-- A nonempty text of plain characters. -/
structure Plain (s : String) : Prop where
  nonempty : s.toList ≠ []
  chars : ∀ c ∈ s.toList, isPlainChar c = true

theorem isPlainChar_of_isNameChar {c : Char} (name : isNameChar c = true)
    : isPlainChar c = true := by
  have plain := isNameChar_plain name
  simp [isPlainChar, plain]

/-- Digits are plain, for they may stand in names. -/
theorem isPlainChar_of_isDigit {c : Char} (digit : c.isDigit = true) : isPlainChar c = true :=
  isPlainChar_of_isNameChar (by simp [isNameChar, Char.isAlphanum, digit])

theorem isPlainChar_iff {c : Char}
    : isPlainChar c = true
      ↔ isBlank c = false ∧ Nesting.isStructural c = false ∧ c ≠ ',' ∧ c ≠ '|' := by
  simp [isPlainChar, and_assoc]

/-- A text of plain characters is whole for both separators. -/
theorem whole_of_forall_isPlainChar {delimiter : Char} {cs : List Char}
    (separator : delimiter = ',' ∨ delimiter = '|') (plain : ∀ c ∈ cs, isPlainChar c = true)
    : Whole delimiter cs := by
  apply Whole.of_forall
  intro c member
  obtain ⟨_, structural, noComma, noBar⟩ := isPlainChar_iff.mp (plain c member)
  rcases separator with rfl | rfl
  · exact ⟨structural, noComma⟩
  · exact ⟨structural, noBar⟩

namespace Plain

variable {s : String}

theorem tidy (plain : Plain s) : Tidy s.toList :=
  Tidy.of_forall plain.nonempty (fun c member => (isPlainChar_iff.mp (plain.chars c member)).1)

theorem isToken (plain : Plain s) {delimiter : Char}
    (separator : delimiter = ',' ∨ delimiter = '|')
    : IsToken delimiter s where
  trimmed := plain.tidy.trimChars_eq
  whole := whole_of_forall_isPlainChar separator plain.chars

theorem unquote_eq (plain : Plain s) : unquote s = s := by
  obtain ⟨c, rest, chars⟩ := List.exists_cons_of_ne_nil plain.nonempty
  have structural := (isPlainChar_iff.mp (plain.chars c (by simp [chars]))).2.1
  have noQuote : isQuote c = false := by
    simp only [Nesting.isStructural, Bool.or_eq_false_iff] at structural
    exact structural.1.1
  rw [unquote, chars, unquoteChars, if_neg (by simp [noQuote]), ← chars, String.ofList_toList]

/-- A plain argument is read as it stands. -/
theorem read_eq_elim {α : Type} (plain : Plain s) (parse? : String → Option α) (what : String)
    : Arguments.read parse? what s = (parse? s).elim (throw (.bad what s)) pure := by
  rw [Arguments.read, plain.unquote_eq, trim_eq_of_tidy plain.tidy]

theorem read_eq {α : Type} (plain : Plain s) {parse? : String → Option α} {value : α}
    (parsed : parse? s = some value) (what : String)
    : Arguments.read parse? what s = .ok value := by
  rw [plain.read_eq_elim, parsed]
  rfl

end Plain

/-- A stage with a word for a name and plain arguments is read back from its written form. -/
theorem Stage.WellFormed.of_plain {stage : Stage} (named : stage.name ≠ "")
    (nameChars : stage.name.toList.all isNameChar = true) (plain : ∀ arg ∈ stage.args, Plain arg)
    : stage.WellFormed := by
  refine ⟨named, List.all_eq_true.mp nameChars, ?_, ?_, ?_⟩
  · exact fun arg member => (plain arg member).isToken (Or.inl rfl)
  · exact fun arg member => ((plain arg member).isToken (Or.inr rfl)).whole
  · intro blank
    have empty := plain "" (by simp [blank])
    exact empty.nonempty rfl

theorem plain_decimal (n : Nat) : Plain (Numeral.decimal n) where
  nonempty := (Numeral.tidy_decimal n).ne_nil
  chars := by
    intro c member
    rw [Numeral.toList_decimal] at member
    exact isPlainChar_of_isDigit (Numeral.isDigit_of_mem_toDigits member)

/-- The text of an integer is plain: there may be a minus sign in front of its digits. -/
theorem plain_decimalInt (i : Int) : Plain (Numeral.decimalInt i) := by
  cases i with
  | ofNat n => exact plain_decimal n
  | negSucc n =>
      have chars : (Numeral.decimalInt (.negSucc n)).toList
          = '-' :: (Numeral.decimal (n + 1)).toList :=
        String.toList_append
      refine ⟨?_, ?_⟩
      · rw [chars]
        exact List.cons_ne_nil _ _
      · rw [chars]
        exact List.forall_mem_cons.mpr ⟨by decide, (plain_decimal (n + 1)).chars⟩

theorem plain_display {x : Float} (finite : x.isFinite = true) : Plain (Decimal.display x) where
  nonempty := (Decimal.display_chars finite).1
  chars := by
    intro c member
    rcases (Decimal.display_chars finite).2 c member with digit | rfl | rfl
    · exact isPlainChar_of_isDigit digit
    · decide
    · decide

/-- A written color is plain. -/
theorem plain_color (color : Color) : Plain color.display where
  nonempty := color.tidy_display.ne_nil
  chars := by
    intro c member
    rcases color.display_chars c member with rfl | ⟨low, high⟩ | ⟨low, high⟩
    · decide
    · exact isPlainChar_of_isDigit (by
        simp only [Char.isDigit, Bool.and_eq_true, decide_eq_true_eq]
        exact ⟨low, high⟩)
    · have high : c.toNat ≤ 102 := high
      have upper : c.toNat ≤ 122 := by omega
      have small : c.isLower = true := by
        simp only [Char.isLower, Bool.and_eq_true, decide_eq_true_eq]
        exact ⟨low, upper⟩
      exact isPlainChar_of_isNameChar
        (by simp [isNameChar, Char.isAlphanum, Char.isAlpha, small])

theorem word_decimal {n : Nat} (below : n < Numeral.wordLimit) (what : String)
    : Arguments.word what (Numeral.decimal n) = .ok n :=
  (plain_decimal n).read_eq (Numeral.word?_decimal below) what

theorem float_display {x : Float} (finite : x.isFinite = true) (what : String)
    : Arguments.read Decimal.float? what (Decimal.display x) = .ok x :=
  (plain_display finite).read_eq (Decimal.float?_display finite) what

theorem color_display (color : Color) : Arguments.color color.display = .ok color.rounded := by
  rw [Arguments.color, (plain_color color).unquote_eq, Color.parse_display]
  rfl

end PixelTree.Descriptor
