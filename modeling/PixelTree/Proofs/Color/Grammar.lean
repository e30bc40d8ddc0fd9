import PixelTree.Proofs.Color.Written

/-! The grammar of colors: a name in letters of any case, or a number sign and the digits of three
bytes. The reader takes one form more: a byte below sixteen may be a plus sign and one digit.
-/

namespace PixelTree

-----------------------------------------------------------------------------------------
-- Letters of either case
-----------------------------------------------------------------------------------------

namespace Text

/-- A letter, or its capital if it has one. -/
def InEitherCase (written letter : Char) : Prop :=
  written = letter ∨ written = letter.toUpper

instance (written letter : Char) : Decidable (InEitherCase written letter) :=
  inferInstanceAs (Decidable (_ ∨ _))

/-- A text with any of its letters replaced by their capitals. -/
def InAnyCase (written text : List Char) : Prop :=
  List.Forall₂ InEitherCase written text

/-- What is written small is the letter itself, if that is no capital. -/
theorem toLower_eq_iff {written letter : Char} (small : letter.isUpper = false)
    : written.toLower = letter ↔ InEitherCase written letter := by
  have kept : letter.toLower = letter := Char.toLower_eq_of_not_isUpper (by simp [small])
  constructor
  · rintro rfl
    by_cases capital : written.isUpper = true
    · right
      rw [Char.toUpper_toLower_eq_toUpper,
        Char.toUpper_eq_of_not_isLower (Char.not_isLower_of_isUpper capital)]
    · left
      rw [Char.toLower_eq_of_not_isUpper capital]
  · rintro (rfl | rfl)
    · exact kept
    · rw [Char.toLower_toUpper_eq_toLower, kept]

theorem map_toLower_eq_iff {written text : List Char} (small : ∀ c ∈ text, c.isUpper = false)
    : written.map Char.toLower = text ↔ InAnyCase written text := by
  induction text generalizing written with
  | nil => rw [List.map_eq_nil_iff, InAnyCase, List.forall₂_nil_right_iff]
  | cons letter rest ih =>
      obtain ⟨first, others⟩ := List.forall_mem_cons.mp small
      cases written with
      | nil => simp [InAnyCase]
      | cons c cs =>
          rw [List.map_cons, List.cons.injEq, toLower_eq_iff first, ih others, InAnyCase, InAnyCase,
            List.forall₂_cons]

/-- Texts agree with a name without capitals exactly if they are the name in any case. -/
theorem sameWord_iff {name text : String} (small : ∀ c ∈ name.toList, c.isUpper = false)
    : sameWord name text = true ↔ InAnyCase text.toList name.toList := by
  have kept : name.toList.map Char.toLower = name.toList :=
    (map_toLower_eq_iff small).mpr (List.forall₂_same.mpr (fun _ _ => Or.inl rfl))
  rw [sameWord, beq_iff_eq, foldCase, foldCase, kept, eq_comm, map_toLower_eq_iff small]

end Text

open Text (InEitherCase InAnyCase)

-----------------------------------------------------------------------------------------
-- Pairs of digits
-----------------------------------------------------------------------------------------

namespace Numeral

/-- A hexadecimal digit has its value in either case, and no other character has one. -/
theorem hexValue?_eq_some_iff {c : Char} {d : Nat}
    : hexValue? c = some d ↔ d < 16 ∧ InEitherCase c (Nat.digitChar d) := by
  constructor
  · intro read
    -- Digits and letters up to f are characters of ASCII, which are few.
    have ascii : c.toNat < 128 := by
      unfold hexValue? at read
      split at read
      · next digit =>
          have high : c.toNat ≤ 57 := (Char.isDigit_iff_toNat.mp digit).2
          omega
      · split at read
        · next small =>
            have high : c.toNat ≤ 102 := small.2
            omega
        · split at read
          · next capital =>
              have high : c.toNat ≤ 70 := capital.2
              omega
          · cases read
    have each : ∀ n : Fin 128, ∀ d ∈ hexValue? (Char.ofNat n),
        d < 16 ∧ InEitherCase (Char.ofNat n) (Nat.digitChar d) := by
      decide
    have at_c := each ⟨c.toNat, ascii⟩ d
    rw [Char.ofNat_toNat] at at_c
    exact at_c read
  · rintro ⟨below, written⟩
    have each : ∀ d : Fin 16, hexValue? (Nat.digitChar d).toUpper = some (d : Nat) := by decide
    rcases written with rfl | rfl
    · exact hexValue?_digitChar below
    · exact each ⟨d, below⟩

/-- The two hexadecimal digits of a byte, in either case. -/
def DigitPair (byte : UInt8) (pair : List Char) : Prop :=
  InAnyCase pair (hexByte byte)

/-- The two digits of a byte, or a plus sign and the only digit of one below sixteen. -/
def ReadPair (byte : UInt8) (pair : List Char) : Prop :=
  DigitPair byte pair
    ∨ byte.toNat < 16 ∧ ∃ digit, pair = ['+', digit] ∧ InEitherCase digit (Nat.digitChar byte.toNat)

/-- Hexadecimal digits are characters of ASCII and no plus signs. -/
theorem digit_bounds {c : Char} {d : Nat} (below : d < 16)
    (written : InEitherCase c (Nat.digitChar d))
    : c.toNat ≤ 127 ∧ c ≠ '+' := by
  have small : ∀ d : Fin 16, (Nat.digitChar d).toNat ≤ 127 ∧ Nat.digitChar d ≠ '+' := by decide
  have capital : ∀ d : Fin 16,
      (Nat.digitChar d).toUpper.toNat ≤ 127 ∧ (Nat.digitChar d).toUpper ≠ '+' := by
    decide
  rcases written with rfl | rfl
  · exact small ⟨d, below⟩
  · exact capital ⟨d, below⟩

theorem digitPair_iff {byte : UInt8} {pair : List Char}
    : DigitPair byte pair
      ↔ ∃ high low,
          pair = [high, low]
          ∧ InEitherCase high (Nat.digitChar (byte.toNat / 16))
          ∧ InEitherCase low (Nat.digitChar (byte.toNat % 16)) := by
  simp only [DigitPair, InAnyCase, hexByte, List.forall₂_cons_right_iff,
    List.forall₂_nil_right_iff]
  constructor
  · rintro ⟨high, _, first, ⟨low, _, second, rfl, rfl⟩, rfl⟩
    exact ⟨high, low, rfl, first, second⟩
  · rintro ⟨high, low, rfl, first, second⟩
    exact ⟨high, [low], first, ⟨low, [], second, rfl, rfl⟩, rfl⟩

theorem plus_notMem_of_digitPair {byte : UInt8} {pair : List Char} (digits : DigitPair byte pair)
    : '+' ∉ pair := by
  obtain ⟨high, low, rfl, first, second⟩ := digitPair_iff.mp digits
  have bound : byte.toNat < 256 := byte.toNat_lt
  have noHigh := (digit_bounds (by omega) first).2
  have noLow := (digit_bounds (by omega) second).2
  simp [noHigh.symm, noLow.symm]

/-- Pairs that bytes are read from are two characters of ASCII. -/
theorem ReadPair.exists_ascii {byte : UInt8} {pair : List Char} (read : ReadPair byte pair)
    : ∃ high low, pair = [high, low] ∧ high.toNat ≤ 127 ∧ low.toNat ≤ 127 := by
  have bound : byte.toNat < 256 := byte.toNat_lt
  rcases read with digits | ⟨below, digit, rfl, written⟩
  · obtain ⟨high, low, rfl, first, second⟩ := digitPair_iff.mp digits
    exact ⟨high, low, rfl, (digit_bounds (by omega) first).1, (digit_bounds (by omega) second).1⟩
  · exact ⟨'+', digit, rfl, by decide, (digit_bounds below written).1⟩

/-- A byte is read from its two digits, and from a plus sign and its only digit. -/
theorem hexPair?_eq_some_iff {high low : Char} {byte : UInt8}
    : hexPair? high low = some byte ↔ ReadPair byte [high, low] := by
  have bound : byte.toNat < 256 := byte.toNat_lt
  by_cases sign : high = '+'
  · subst sign
    rw [hexPair?, if_pos rfl, Option.map_eq_some_iff]
    constructor
    · rintro ⟨d, read, rfl⟩
      obtain ⟨below, written⟩ := hexValue?_eq_some_iff.mp read
      have value : (UInt8.ofNat d).toNat = d := by
        rw [UInt8.toNat_ofNat', Nat.mod_eq_of_lt (by omega)]
      refine Or.inr ⟨by omega, low, rfl, ?_⟩
      rwa [value]
    · rintro (digits | ⟨below, digit, same, written⟩)
      · exact absurd List.mem_cons_self (plus_notMem_of_digitPair digits)
      · obtain rfl : low = digit := by simpa using same
        exact ⟨byte.toNat, hexValue?_eq_some_iff.mpr ⟨below, written⟩, UInt8.ofNat_toNat⟩
  · rw [hexPair?, if_neg sign]
    constructor
    · intro read
      obtain ⟨h, first, read⟩ := Option.bind_eq_some_iff.mp read
      obtain ⟨l, second, read⟩ := Option.bind_eq_some_iff.mp read
      obtain rfl := Option.some.inj read
      obtain ⟨highBelow, first⟩ := hexValue?_eq_some_iff.mp first
      obtain ⟨lowBelow, second⟩ := hexValue?_eq_some_iff.mp second
      have value : (UInt8.ofNat (16 * h + l)).toNat = 16 * h + l := by
        rw [UInt8.toNat_ofNat', Nat.mod_eq_of_lt (by omega)]
      refine Or.inl (digitPair_iff.mpr ⟨high, low, rfl, ?_, ?_⟩)
      · rwa [value, show (16 * h + l) / 16 = h by omega]
      · rwa [value, show (16 * h + l) % 16 = l by omega]
    · rintro (digits | ⟨_, _, same, _⟩)
      · obtain ⟨_, _, ⟨⟩, first, second⟩ := digitPair_iff.mp digits
        have whole : 16 * (byte.toNat / 16) + byte.toNat % 16 = byte.toNat := by omega
        rw [hexValue?_eq_some_iff.mpr ⟨by omega, first⟩,
          hexValue?_eq_some_iff.mpr ⟨by omega, second⟩]
        change some (UInt8.ofNat (16 * (byte.toNat / 16) + byte.toNat % 16)) = some byte
        rw [whole, UInt8.ofNat_toNat]
      · exact absurd (List.cons.inj same).1 sign

end Numeral

namespace Color

open Text
open Numeral (DigitPair ReadPair)

-----------------------------------------------------------------------------------------
-- Texts of colors
-----------------------------------------------------------------------------------------

/-- The texts of a color: its name in any case, or a number sign and a pair of characters for each
of its levels.
-/
inductive Denotes (Pair : UInt8 → List Char → Prop) : List Char → Color → Prop where
  | name {written : List Char} {name : String} {color : Color} (known : (name, color) ∈ named)
    (letters : InAnyCase written name.toList)
    : Denotes Pair written color
  | levels {red green blue : UInt8} {r g b : List Char} (isRed : Pair red r)
    (isGreen : Pair green g) (isBlue : Pair blue b)
    : Denotes Pair ('#' :: (r ++ g ++ b)) (ofLevels red green blue)

/-- Names are made of small letters. -/
theorem isLower_of_named {name : String} {color : Color} (known : (name, color) ∈ named)
    : ∀ c ∈ name.toList, c.isLower = true := by
  have each : ∀ entry ∈ named, entry.1.toList.all Char.isLower = true := by decide
  exact List.all_eq_true.mp (each _ known)

theorem noCapital_of_named {name : String} {color : Color} (known : (name, color) ∈ named)
    : ∀ c ∈ name.toList, c.isUpper = false := by
  intro c member
  simpa using Char.not_isUpper_of_isLower (isLower_of_named known c member)

/-- A name is looked up in any case. No two names are the same word, so the first entry with it is
the only one.
-/
theorem ofName?_eq_some_iff {text : String} {color : Color}
    : ofName? text = some color
      ↔ ∃ name, (name, color) ∈ named ∧ InAnyCase text.toList name.toList := by
  have spelled {name : String} {color : Color} (known : (name, color) ∈ named)
      : sameWord name text = true ↔ InAnyCase text.toList name.toList :=
    sameWord_iff (noCapital_of_named known)
  rw [ofName?, Option.map_eq_some_iff]
  constructor
  · rintro ⟨⟨name, _⟩, found, rfl⟩
    have known := List.mem_of_find?_eq_some found
    exact ⟨name, known, (spelled known).mp (by simpa using List.find?_some found)⟩
  · rintro ⟨name, known, letters⟩
    have same := (spelled known).mpr letters
    cases found : named.find? (fun entry => sameWord entry.1 text) with
    | none => exact absurd same (List.find?_eq_none.mp found _ known)
    | some entry =>
        have words : (named.map (fun entry => foldCase entry.1)).Nodup := by decide
        have known' := List.mem_of_find?_eq_some found
        have same' := List.find?_some found
        rw [sameWord, beq_iff_eq] at same same'
        obtain rfl := List.inj_on_of_nodup_map words known' known (same'.trans same.symm)
        exact ⟨_, rfl, rfl⟩

/-- Six characters are read as the levels of a color pair by pair. -/
theorem ofHex?_eq_some_iff {digits : List Char} {color : Color}
    : ofHex? digits = some color
      ↔ ∃ red green blue r g b,
          digits = r ++ g ++ b
          ∧ color = ofLevels red green blue
          ∧ ReadPair red r
          ∧ ReadPair green g
          ∧ ReadPair blue b := by
  constructor
  · intro read
    unfold ofHex? at read
    split at read
    · next r s g h b c =>
        obtain ⟨red, isRed, read⟩ := Option.bind_eq_some_iff.mp read
        obtain ⟨green, isGreen, read⟩ := Option.bind_eq_some_iff.mp read
        obtain ⟨blue, isBlue, read⟩ := Option.bind_eq_some_iff.mp read
        exact ⟨red, green, blue, [r, s], [g, h], [b, c], rfl, (Option.some.inj read).symm,
          Numeral.hexPair?_eq_some_iff.mp isRed, Numeral.hexPair?_eq_some_iff.mp isGreen,
          Numeral.hexPair?_eq_some_iff.mp isBlue⟩
    · cases read
  · rintro ⟨red, green, blue, r, g, b, rfl, rfl, isRed, isGreen, isBlue⟩
    obtain ⟨_, _, rfl, _, _⟩ := isRed.exists_ascii
    obtain ⟨_, _, rfl, _, _⟩ := isGreen.exists_ascii
    obtain ⟨_, _, rfl, _, _⟩ := isBlue.exists_ascii
    simp only [List.cons_append, List.nil_append, ofHex?,
      Numeral.hexPair?_eq_some_iff.mpr isRed, Numeral.hexPair?_eq_some_iff.mpr isGreen,
      Numeral.hexPair?_eq_some_iff.mpr isBlue]
    rfl

/-- What six characters are read as a color for are six, and characters of ASCII. -/
theorem shape_of_ofHex? {digits : List Char} {color : Color} (read : ofHex? digits = some color)
    : ¬ (digits.length ≠ 6 ∨ digits.any (fun c => 127 < c.toNat) = true) := by
  obtain ⟨red, green, blue, r, g, b, rfl, _, isRed, isGreen, isBlue⟩ := ofHex?_eq_some_iff.mp read
  obtain ⟨_, _, rfl, first, second⟩ := isRed.exists_ascii
  obtain ⟨_, _, rfl, third, fourth⟩ := isGreen.exists_ascii
  obtain ⟨_, _, rfl, fifth, sixth⟩ := isBlue.exists_ascii
  simp
  omega

/-- What may be found is returned exactly if it is found. -/
theorem elim_eq_ok {found : Option Color} {error : ParseError} {color : Color}
    : found.elim (throw error) pure = (.ok color : Except ParseError Color)
      ↔ found = some color := by
  cases found with
  | none => simp [throw, throwThe, MonadExceptOf.throw]
  | some other => simp [pure, Except.pure]

/-- Behind a number sign the digits decide: no pairs of them fail the test for six characters of
ASCII.
-/
theorem parse_of_sign {s : String} {digits : List Char} {color : Color}
    (sign : (trim s).toList = '#' :: digits)
    : parse s = .ok color ↔ ofHex? digits = some color := by
  simp only [parse, sign]
  split
  · next misshapen =>
      constructor
      · intro failed
        cases failed
      · intro read
        exact absurd misshapen (shape_of_ofHex? read)
  · exact elim_eq_ok

theorem parse_of_word {s : String} {color : Color}
    (word : ∀ digits, (trim s).toList ≠ '#' :: digits)
    : parse s = .ok color ↔ ofName? (trim s) = some color := by
  simp only [parse]
  exact elim_eq_ok

/-- In any case a name is made of letters. -/
theorem isAlpha_of_letters {written : List Char} {name : String} {color : Color}
    (known : (name, color) ∈ named) (letters : InAnyCase written name.toList)
    : ∀ c ∈ written, c.isAlpha = true := by
  have small : written.map Char.toLower = name.toList :=
    (map_toLower_eq_iff (noCapital_of_named known)).mpr letters
  intro c member
  have lowered : c.toLower ∈ name.toList := by
    rw [← small]
    exact List.mem_map_of_mem member
  rw [← Char.isLower_toLower_eq_isAlpha]
  exact isLower_of_named known _ lowered

/-- Which texts are read as a color. -/
theorem parse_eq_ok_iff {s : String} {color : Color}
    : parse s = .ok color ↔ Denotes ReadPair (trim s).toList color := by
  constructor
  · intro read
    by_cases sign : ∃ digits, (trim s).toList = '#' :: digits
    · obtain ⟨digits, sign⟩ := sign
      obtain ⟨_, _, _, r, g, b, rfl, rfl, isRed, isGreen, isBlue⟩ :=
        ofHex?_eq_some_iff.mp ((parse_of_sign sign).mp read)
      rw [sign]
      exact .levels isRed isGreen isBlue
    · obtain ⟨name, known, letters⟩ :=
        ofName?_eq_some_iff.mp ((parse_of_word (not_exists.mp sign)).mp read)
      exact .name known letters
  · intro denotes
    generalize written : (trim s).toList = text at denotes
    cases denotes with
    | @name _ name _ known letters =>
        have word : ∀ digits, (trim s).toList ≠ '#' :: digits := by
          intro digits sign
          have letter := isAlpha_of_letters known letters '#'
            (by rw [← written, sign]; exact List.mem_cons_self)
          exact absurd letter (by decide)
        rw [← written] at letters
        exact (parse_of_word word).mpr (ofName?_eq_some_iff.mpr ⟨name, known, letters⟩)
    | levels isRed isGreen isBlue =>
        exact (parse_of_sign written).mpr
          (ofHex?_eq_some_iff.mpr ⟨_, _, _, _, _, _, rfl, rfl, isRed, isGreen, isBlue⟩)

-----------------------------------------------------------------------------------------
-- Digits with a sign
-----------------------------------------------------------------------------------------

/-- Texts without a plus sign have digits for all pairs. -/
theorem denotes_digitPair_iff {text : List Char} {color : Color}
    : Denotes DigitPair text color ↔ Denotes ReadPair text color ∧ '+' ∉ text := by
  have digits {byte : UInt8} {pair : List Char} (read : ReadPair byte pair) (none : '+' ∉ pair)
      : DigitPair byte pair := by
    rcases read with digits | ⟨_, _, rfl, _⟩
    · exact digits
    · exact absurd List.mem_cons_self none
  constructor
  · rintro (⟨known, letters⟩ | ⟨isRed, isGreen, isBlue⟩)
    · refine ⟨.name known letters, fun plus => ?_⟩
      exact absurd (isAlpha_of_letters known letters '+' plus) (by decide)
    · refine ⟨.levels (.inl isRed) (.inl isGreen) (.inl isBlue), ?_⟩
      simp [Numeral.plus_notMem_of_digitPair isRed, Numeral.plus_notMem_of_digitPair isGreen,
        Numeral.plus_notMem_of_digitPair isBlue]
  · rintro ⟨⟨known, letters⟩ | ⟨isRed, isGreen, isBlue⟩, none⟩
    · exact .name known letters
    · simp only [List.mem_cons, List.mem_append, not_or] at none
      obtain ⟨_, ⟨noRed, noGreen⟩, noBlue⟩ := none
      exact .levels (digits isRed noRed) (digits isGreen noGreen) (digits isBlue noBlue)

/-- A text between blanks is read as a color exactly if it is the color's name in any case, or a
number sign and a pair of characters for each of its levels: the two digits of a byte, or a plus
sign and the only digit of one below sixteen. So names and six digits are all that is read exactly
where no plus sign is read.
-/
theorem reads_names_and_digits_iff (s : String)
    : (∀ color, parse s = .ok color ↔ Denotes ReadPair (trim s).toList color)
      ∧ ((∀ color, parse s = .ok color ↔ Denotes DigitPair (trim s).toList color)
        ↔ ((parse s).isOk → '+' ∉ (trim s).toList)) := by
  refine ⟨fun _ => parse_eq_ok_iff, ?_⟩
  simp only [parse_eq_ok_iff, denotes_digitPair_iff, iff_self_and]
  constructor
  · intro plusless read
    cases found : parse s with
    | error error =>
        rw [found] at read
        cases read
    | ok color => exact plusless color (parse_eq_ok_iff.mp found)
  · intro plusless color denotes
    apply plusless
    rw [parse_eq_ok_iff.mpr denotes]
    rfl

/-- Three signed digits are read as a color, though they are no name and no six digits. -/
theorem reads_signed_digits
    : parse "#+1+2+3" = .ok (ofLevels 1 2 3)
      ∧ ∀ color, ¬ Denotes DigitPair (trim "#+1+2+3").toList color := by
  refine ⟨rfl, fun color denotes => ?_⟩
  exact (denotes_digitPair_iff.mp denotes).2 (by decide)

end Color

end PixelTree
