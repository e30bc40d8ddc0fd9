import PixelTree.Kinet.Address
import PixelTree.Proofs.Descriptor.Plain
import PixelTree.Proofs.Net.Dotted

/-! The addresses that texts stand for, each read back from its written form. -/

namespace PixelTree.Kinet.Address

open Descriptor Text

/-- What a text can say about a string of lights: the count is within bounds, an output has a
number other than zero, and the universe is the first one.
-/
inductive Readable : Address → Prop where
  | whole (ip : Net.Ipv4) {count : Nat} (least : 1 ≤ count) (most : count ≤ maxCount)
    : Readable (whole ip count)
  | output (ip : Net.Ipv4) {port : UInt8} {count : Nat} (numbered : 1 ≤ port.toNat)
    (least : 1 ≤ count) (most : count ≤ maxCount)
    : Readable (output ip port count)

theorem Readable.count_bounds {address : Address} (readable : address.Readable)
    : 1 ≤ address.count ∧ address.count ≤ maxCount := by
  cases readable with
  | whole ip least most => exact ⟨least, most⟩
  | output ip numbered least most => exact ⟨least, most⟩

theorem bounds_of_bounded? {least most n : Nat} {cs : List Char}
    (read : bounded? least most cs = some n)
    : least ≤ n ∧ n ≤ most := by
  have within := (Option.filter_eq_some_iff.mp read).2
  simpa using within

/-- A count is within its bounds, whether it was read or is the default. -/
theorem bounds_of_takeCount {cs rest : List Char} {count : Nat}
    (taken : takeCount cs = .ok (rest, count))
    : 1 ≤ count ∧ count ≤ maxCount := by
  unfold takeCount at taken
  split at taken
  · split at taken
    · cases taken
    · next text _ =>
        unfold parseCount at taken
        cases read : bounded? 1 maxCount text with
        | none => simp [read, bind, Except.bind, throw, throwThe, MonadExceptOf.throw] at taken
        | some n =>
            simp only [read, bind, Except.bind, pure, Except.pure, Option.elim, Except.ok.injEq,
              Prod.mk.injEq] at taken
            rw [← taken.2]
            exact bounds_of_bounded? read
  · split at taken
    · cases taken
    · cases taken
      decide

/-- The number of an output is not zero. -/
theorem numbered_of_parsePort {cs : List Char} {port : UInt8} (read : parsePort cs = .ok port)
    : 1 ≤ port.toNat := by
  unfold parsePort at read
  cases found : bounded? 1 255 cs with
  | none => rw [found] at read; cases read
  | some n =>
      rw [found] at read
      cases read
      have bounds := bounds_of_bounded? found
      rw [UInt8.toNat_ofNat']
      omega

/-- Every address that a text stands for is readable. -/
theorem readable_of_parse {input : String} {address : Address} (read : parse input = .ok address)
    : address.Readable := by
  unfold parse at read
  cases chars : parseChars (trimChars input.toList) with
  | error fault => rw [chars] at read; cases read
  | ok found =>
      rw [chars] at read
      cases read
      simp only [parseChars, bind, Except.bind, pure, Except.pure] at chars
      split at chars
      · cases chars
      · next taken =>
          have bounds := bounds_of_takeCount taken
          split at chars
          · split at chars
            · cases chars
            · cases chars
              exact .whole _ bounds.1 bounds.2
          · split at chars
            · cases chars
            · split at chars
              · cases chars
              · next port =>
                  cases chars
                  exact .output _ (numbered_of_parsePort port) bounds.1 bounds.2

/-- The last occurrence of a character is found behind everything else. -/
theorem splitLast?_append {c : Char} {back : List Char} (none : ∀ d ∈ back, d ≠ c)
    (front : List Char)
    : splitLast? c (front ++ c :: back) = some (front, back) := by
  have stops : ∀ d ∈ back.reverse, (d != c) = true := by simpa using none
  have reversed : (front ++ c :: back).reverse = back.reverse ++ c :: front.reverse := by simp
  simp only [splitLast?, reversed, List.dropWhile_append_of_pos stops,
    List.takeWhile_append_of_pos stops]
  simp

/-- The first occurrence of a character is found in front of everything else. -/
theorem splitFirst?_append {c : Char} {front : List Char} (none : ∀ d ∈ front, d ≠ c)
    (back : List Char)
    : splitFirst? c (front ++ c :: back) = some (front, back) := by
  have stops : ∀ d ∈ front, (d != c) = true := by simpa using none
  simp only [splitFirst?, List.dropWhile_append_of_pos stops,
    List.takeWhile_append_of_pos stops]
  simp

theorem splitFirst?_of_forall {c : Char} {cs : List Char} (none : ∀ d ∈ cs, d ≠ c)
    : splitFirst? c cs = .none := by
  have dropped : cs.dropWhile (· != c) = [] := by
    rw [List.dropWhile_eq_nil_iff]
    simpa using none
  simp only [splitFirst?, dropped]

/-- A written number is read back exactly if it keeps the bounds. -/
theorem bounded?_toDigits_eq {least most : Nat} (small : most < Numeral.wordLimit) (n : Nat)
    : bounded? least most (Nat.toDigits 10 n)
      = if least ≤ n ∧ n ≤ most then some n else none := by
  have trimmed := (Numeral.tidy_decimal n).trimChars_eq
  rw [Numeral.toList_decimal] at trimmed
  rw [bounded?, trimmed, ← Numeral.decimal, Numeral.word?, Numeral.natural?_decimal_eq]
  by_cases within : least ≤ n ∧ n ≤ most
  · have below : n < Numeral.wordLimit := by omega
    simp [Option.filter, within, below]
  · rw [if_neg within]
    split
    · simpa [Option.filter] using within
    · rfl

/-- A count in parentheses is taken off as a whole, or refused if it is out of bounds. -/
theorem takeCount_append (count : Nat) (front : List Char)
    : takeCount (front ++ '(' :: (Nat.toDigits 10 count ++ [')']))
      = if 1 ≤ count ∧ count ≤ maxCount then .ok (front, count)
        else .error (.count (Numeral.decimal count)) := by
  have digits : ∀ d ∈ Nat.toDigits 10 count, d ≠ '(' := by
    intro d member same
    have digit := Numeral.isDigit_of_mem_toDigits member
    rw [same] at digit
    exact absurd digit (by decide)
  have chars : front ++ '(' :: (Nat.toDigits 10 count ++ [')'])
      = (front ++ '(' :: Nat.toDigits 10 count) ++ [')'] := by simp
  rw [takeCount, chars, if_pos List.getLast?_concat, List.dropLast_concat,
    splitLast?_append digits]
  simp only [parseCount, bounded?_toDigits_eq (show maxCount < Numeral.wordLimit by decide)]
  split
  · rfl
  · rfl

/-- A written port is read back unless it is zero. -/
theorem parsePort_toDigits (port : UInt8)
    : parsePort (Nat.toDigits 10 port.toNat)
      = if port = 0 then .error (.port "0") else .ok port := by
  have most : port.toNat ≤ 255 := Nat.le_of_lt_succ port.toNat_lt
  rw [parsePort, bounded?_toDigits_eq (by decide)]
  by_cases zero : port = 0
  · rw [if_pos zero, zero]
    rfl
  · have numbered : 1 ≤ port.toNat := by
      apply Nat.pos_of_ne_zero
      intro same
      exact zero (UInt8.toNat_inj.mp same)
    rw [if_neg zero, if_pos ⟨numbered, most⟩, Option.elim, UInt8.ofNat_toNat]
    rfl

theorem parseIp_display (ip : Net.Ipv4) : parseIp ip.display.toList = .ok ip := by
  rw [parseIp, ip.tidy_display.trimChars_eq, String.ofList_toList, ip.parse?_display]
  rfl

theorem slash_notMem_display (ip : Net.Ipv4) : ∀ d ∈ ip.display.toList, d ≠ '/' := by
  intro d member same
  rcases ip.display_chars d member with digit | point
  · rw [same] at digit
    exact absurd digit (by decide)
  · rw [same] at point
    exact absurd point (by decide)

/-- The network part, and the port behind a slash if there is one. -/
def front (address : Address) : List Char :=
  match address.protocol with
  | .v1 => address.ip.display.toList
  | .v2 => address.ip.display.toList ++ '/' :: Nat.toDigits 10 address.port.toNat

/-- The characters of a written address: the front and the count in parentheses. -/
theorem toList_display (address : Address)
    : address.display.toList
      = address.front ++ '(' :: (Nat.toDigits 10 address.count ++ [')']) := by
  unfold display front
  cases address.protocol with
  | v1 => simp [toString, String.toList_append]
  | v2 => simp [toString, String.toList_append]

/-- The front consists of plain characters. -/
theorem isPlainChar_front (address : Address) : ∀ c ∈ address.front, isPlainChar c = true := by
  have ip : ∀ c ∈ address.ip.display.toList, isPlainChar c = true := by
    intro c member
    rcases address.ip.display_chars c member with digit | rfl
    · exact isPlainChar_of_isDigit digit
    · decide
  unfold front
  cases address.protocol with
  | v1 => exact ip
  | v2 =>
      intro c member
      rcases List.mem_append.mp member with inIp | other
      · exact ip c inIp
      · rcases List.mem_cons.mp other with rfl | digit
        · decide
        · exact isPlainChar_of_isDigit (Numeral.isDigit_of_mem_toDigits digit)

theorem front_ne_nil (address : Address) : address.front ≠ [] := by
  have ip := address.ip.tidy_display.ne_nil
  unfold front
  cases address.protocol with
  | v1 => exact ip
  | v2 => simp

theorem tidy_display (address : Address) : Tidy address.display.toList := by
  have front := Tidy.of_forall address.front_ne_nil
    (fun c member => (isPlainChar_iff.mp (address.isPlainChar_front c member)).1)
  have closing : Tidy [')'] := Tidy.singleton (by decide)
  have whole := front.append ('(' :: Nat.toDigits 10 address.count) closing
  rwa [List.cons_append, ← toList_display] at whole

/-- Neither separator cuts a written address. -/
theorem whole_display (address : Address) {delimiter : Char}
    (separator : delimiter = ',' ∨ delimiter = '|')
    : Whole delimiter address.display.toList := by
  have front := whole_of_forall_isPlainChar separator address.isPlainChar_front
  have digits : Balanced (Nat.toDigits 10 address.count) :=
    (whole_of_forall_isPlainChar separator (fun c member =>
      isPlainChar_of_isDigit (Numeral.isDigit_of_mem_toDigits member))).balanced
  have count : Whole delimiter ('(' :: (Nat.toDigits 10 address.count ++ [')'])) :=
    digits.whole_group rfl rfl delimiter
  rw [toList_display]
  exact front.append count

/-- What the written form of any address is read as. The universe and the port of a whole supply
are not written, so others are read instead; a count out of bounds and an output without a number
are written as they are, and refused.
-/
theorem parse_display_eq (address : Address)
    : parse address.display
      = if 1 ≤ address.count ∧ address.count ≤ maxCount then
          match address.protocol with
          | .v1 => .ok (whole address.ip address.count)
          | .v2 =>
            if address.port = 0 then .error ⟨address.display, .port "0"⟩
            else .ok (output address.ip address.port address.count)
        else .error ⟨address.display, .count (Numeral.decimal address.count)⟩ := by
  rw [parse, address.tidy_display.trimChars_eq, toList_display, parseChars, takeCount_append]
  by_cases within : 1 ≤ address.count ∧ address.count ≤ maxCount
  · rw [if_pos within, if_pos within]
    unfold front
    cases address.protocol with
    | v1 =>
        have noPort : splitFirst? '/' address.ip.display.toList = none :=
          splitFirst?_of_forall (slash_notMem_display address.ip)
        simp only [bind, Except.bind, noPort, parseIp_display]
        rfl
    | v2 =>
        simp only [bind, Except.bind, splitFirst?_append (slash_notMem_display address.ip),
          parseIp_display, parsePort_toDigits]
        by_cases zero : address.port = 0
        · simp only [if_pos zero]
          rfl
        · simp only [if_neg zero]
          rfl
  · rw [if_neg within, if_neg within]
    rfl

/-- A readable address is read back from its written form. -/
theorem parse_display {address : Address} (readable : address.Readable)
    : parse address.display = .ok address := by
  rw [parse_display_eq, if_pos readable.count_bounds]
  cases readable with
  | whole ip least most => rfl
  | @output ip port count numbered least most =>
      have other : port ≠ 0 := by
        rintro rfl
        exact absurd numbered (by decide)
      exact if_neg other

-----------------------------------------------------------------------------------------
-- Canonical forms
-----------------------------------------------------------------------------------------

/-- An address whose text leaves nothing out and names nothing that is refused. -/
structure Canonical (address : Address) : Prop where
  least : 1 ≤ address.count
  most : address.count ≤ 256
  firstUniverse : address.dmxUniverse = 0
  unnumbered : address.protocol = .v1 → address.port = 0
  numbered : address.protocol = .v2 → 1 ≤ address.port.toNat

theorem Readable.canonical {address : Address} (readable : address.Readable)
    : address.Canonical := by
  cases readable with
  | whole ip least most => exact ⟨least, most, rfl, fun _ => rfl, nofun⟩
  | output ip numbered least most =>
      exact ⟨least, most, rfl, nofun, fun _ => numbered⟩

theorem Canonical.readable {address : Address} (canonical : address.Canonical)
    : address.Readable := by
  obtain ⟨ip, protocol, port, count, dmxUniverse⟩ := address
  obtain ⟨least, most, rfl, unnumbered, numbered⟩ := canonical
  cases protocol with
  | v1 =>
      obtain rfl := unnumbered rfl
      exact .whole ip least most
  | v2 => exact .output ip (numbered rfl) least most

/-- An address is read back from its text exactly if it has a count between 1 and 256, the first
universe, no port in version 1 and one other than zero in version 2. Every address that a text
stands for is of this kind, so its written form stands for it, and no written form stands for two.
-/
theorem display_canonical
    : (∀ address : Address, parse address.display = .ok address ↔ address.Canonical)
      ∧ ∀ (input : String) (address : Address), parse input = .ok address →
          address.Canonical
          ∧ parse address.display = .ok address
          ∧ ∀ other : Address, parse other.display = .ok other →
              other.display = address.display → other = address := by
  refine ⟨fun address => ⟨?_, ?_⟩, fun input address read => ?_⟩
  · intro back
    exact (readable_of_parse back).canonical
  · intro canonical
    exact parse_display canonical.readable
  · have readable := readable_of_parse read
    have back := parse_display readable
    refine ⟨readable.canonical, back, fun other otherBack same => ?_⟩
    rw [same, back] at otherBack
    exact (Except.ok.inj otherBack).symm

/-- Blanks, a plus sign and leading zeros are no part of the written form. -/
theorem display_canonical_of_blanks
    : ∃ address : Address,
        parse " 10.0.0.5 / +02 ( 025 ) " = .ok address
        ∧ address.display = "10.0.0.5/2(25)"
        ∧ address.Canonical
        ∧ parse address.display = .ok address := by
  have read : parse " 10.0.0.5 / +02 ( 025 ) " = .ok (output ⟨10, 0, 0, 5⟩ 2 25) := by
    decide +kernel
  obtain ⟨canonical, back, _⟩ := display_canonical.2 _ _ read
  exact ⟨_, read, by decide +kernel, canonical, back⟩

end PixelTree.Kinet.Address
