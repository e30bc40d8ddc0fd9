import PixelTree.Proofs.Kinet.Written

/-! The grammar of addresses. A text without blanks at its ends stands for an address exactly if it
is an IPv4 part, perhaps a port behind a slash, and perhaps a count in parentheses at the end. Each
part may have blanks around it.
-/

namespace PixelTree.Kinet.Address

open Numeral (Spells)
open Text

-----------------------------------------------------------------------------------------
-- Parts
-----------------------------------------------------------------------------------------

/-- A decimal number within bounds, with blanks around it. -/
def NumberPart (least most : Nat) (cs : List Char) (n : Nat) : Prop :=
  (∃ digits, Spells digits n ∧ Padded digits cs) ∧ least ≤ n ∧ n ≤ most

/-- What stands behind the IPv4 part. Without a port the address is of version 1. -/
inductive PortPart : List Char → Protocol → UInt8 → Prop where
  | absent : PortPart [] .v1 0
  | given {text : List Char} {port : UInt8} (number : NumberPart 1 255 text port.toNat)
    : PortPart ('/' :: text) .v2 port

/-- What stands at the end of an address. -/
inductive CountPart : List Char → Nat → Prop where
  | absent : CountPart [] 50
  | given {text : List Char} {count : Nat} (number : NumberPart 1 256 text count)
    : CountPart ('(' :: (text ++ [')'])) count

/-- A text stands for an address: it consists of the parts of the address, in order. -/
inductive Denotes : List Char → Address → Prop where
  | parts {network portText countText : List Char} {ip : Net.Ipv4} {protocol : Protocol}
    {port : UInt8} {count : Nat} (dotted : Padded ip.display.toList network)
    (numbered : PortPart portText protocol port) (counted : CountPart countText count)
    : Denotes (network ++ portText ++ countText) ⟨ip, protocol, port, count, 0⟩

-----------------------------------------------------------------------------------------
-- Marks between parts
-----------------------------------------------------------------------------------------

/-- The characters that tell the parts of an address from each other. -/
def isMark (c : Char) : Bool :=
  c = '/' || c = '(' || c = ')'

/-- Characters of a kind that takes in no mark are no marks. -/
theorem isMark_of_kind {kind : Char → Bool} (apart : ['/', '(', ')'].any kind = false) {c : Char}
    (inKind : kind c = true)
    : isMark c = false := by
  cases mark : isMark c with
  | false => rfl
  | true =>
      have listed : c ∈ ['/', '(', ')'] := by simpa [isMark, or_assoc] using mark
      exact absurd inKind (List.any_eq_false.mp apart c listed)

theorem isMark_of_isDigit {c : Char} (digit : c.isDigit = true) : isMark c = false :=
  isMark_of_kind (by decide) digit

/-- Blanks around a text bring no mark. -/
theorem isMark_of_padded {core cs : List Char} (padded : Padded core cs)
    (plain : ∀ c ∈ core, isMark c = false)
    : ∀ c ∈ cs, isMark c = false := by
  intro c member
  rcases padded.chars c member with blank | inCore
  · exact isMark_of_kind (by decide) blank
  · exact plain c inCore

theorem notMem_of_isMark {mark : Char} (isMark_mark : isMark mark = true) {cs : List Char}
    (plain : ∀ c ∈ cs, isMark c = false)
    : mark ∉ cs := by
  intro member
  rw [plain mark member] at isMark_mark
  cases isMark_mark

/-- The IPv4 part holds no mark. -/
theorem isMark_of_dotted {ip : Net.Ipv4} {cs : List Char} (dotted : Padded ip.display.toList cs)
    : ∀ c ∈ cs, isMark c = false := by
  refine isMark_of_padded dotted ?_
  intro c member
  rcases ip.display_chars c member with digit | rfl
  · exact isMark_of_isDigit digit
  · decide

/-- A number holds no mark. -/
theorem NumberPart.isMark_eq {least most n : Nat} {cs : List Char}
    (number : NumberPart least most cs n)
    : ∀ c ∈ cs, isMark c = false := by
  obtain ⟨⟨digits, spelled, padded⟩, _⟩ := number
  refine isMark_of_padded padded ?_
  intro c member
  rcases spelled.chars c member with digit | rfl
  · exact isMark_of_isDigit digit
  · decide

-----------------------------------------------------------------------------------------
-- Cutting at a mark
-----------------------------------------------------------------------------------------

/-- What the first occurrence of a character was cut from. -/
theorem eq_of_splitFirst? {c : Char} {cs front back : List Char}
    (cut : splitFirst? c cs = some (front, back))
    : cs = front ++ c :: back := by
  unfold splitFirst? at cut
  split at cut
  · cases cut
  · next d rest dropped =>
      cases cut
      have stopped : ¬(d != c) = true := by
        have head := List.head?_dropWhile_not (· != c) cs
        simpa [dropped] using head
      obtain rfl : d = c := by simpa using stopped
      rw [← dropped, List.takeWhile_append_dropWhile]

/-- What the last occurrence of a character was cut from. -/
theorem eq_of_splitLast? {c : Char} {cs front back : List Char}
    (cut : splitLast? c cs = some (front, back))
    : cs = front ++ c :: back := by
  have reversed : splitFirst? c cs.reverse = some (back.reverse, front.reverse) := by
    unfold splitLast? at cut
    unfold splitFirst?
    cases dropped : cs.reverse.dropWhile (· != c) with
    | nil => simp [dropped] at cut
    | cons d rest =>
        simp only [dropped, Option.some.injEq, Prod.mk.injEq] at cut
        simp [← cut.1, ← cut.2]
  have whole := congrArg List.reverse (eq_of_splitFirst? reversed)
  simpa using whole

-----------------------------------------------------------------------------------------
-- Reading the parts
-----------------------------------------------------------------------------------------

/-- A number within bounds is read exactly from its texts, blanks around them ignored. -/
theorem bounded?_eq_some_iff {least most n : Nat} (small : most < Numeral.wordLimit)
    {cs : List Char}
    : bounded? least most cs = some n ↔ NumberPart least most cs n := by
  constructor
  · intro read
    obtain ⟨word, within⟩ := Option.filter_eq_some_iff.mp read
    obtain ⟨digits, _⟩ := Option.filter_eq_some_iff.mp word
    rw [String.toList_ofList, Numeral.plusDigits?_eq_some_iff] at digits
    exact ⟨⟨trimChars cs, digits, padded_trimChars cs⟩, by simpa using within⟩
  · rintro ⟨⟨digits, spelled, padded⟩, within⟩
    have below : n < Numeral.wordLimit := Nat.lt_of_le_of_lt within.2 small
    have word : Numeral.word? (String.ofList digits) = some n := by
      rw [Numeral.word?, Numeral.natural?, String.toList_ofList,
        Numeral.plusDigits?_eq_some_iff.mpr spelled]
      simp [Option.filter, below]
    rw [bounded?, padded.trimChars_eq spelled.tidy, word]
    simp [Option.filter, within]

theorem parseIp_eq_ok_iff {cs : List Char} {ip : Net.Ipv4}
    : parseIp cs = .ok ip ↔ Padded ip.display.toList cs := by
  constructor
  · intro read
    unfold parseIp at read
    cases found : Net.Ipv4.parse? (String.ofList (trimChars cs)) with
    | none => rw [found] at read; cases read
    | some ip' =>
        rw [found] at read
        cases read
        rw [← Net.Ipv4.parse?_eq_some_iff.mp found, String.toList_ofList]
        exact padded_trimChars cs
  · intro padded
    rw [parseIp, padded.trimChars_eq ip.tidy_display, String.ofList_toList, ip.parse?_display]
    rfl

theorem parsePort_eq_ok_iff {cs : List Char} {port : UInt8}
    : parsePort cs = .ok port ↔ NumberPart 1 255 cs port.toNat := by
  rw [← bounded?_eq_some_iff (by decide), parsePort]
  cases found : bounded? 1 255 cs with
  | none => simp [throw, throwThe, MonadExceptOf.throw]
  | some n =>
      have bounds := bounds_of_bounded? found
      have word : (UInt8.ofNat n).toNat = n := by
        rw [UInt8.toNat_ofNat']
        omega
      rw [Option.elim, Option.some.injEq]
      constructor
      · intro read
        obtain rfl := Except.ok.inj read
        exact word.symm
      · rintro rfl
        rw [UInt8.ofNat_toNat]
        rfl

theorem parseCount_eq_ok_iff {cs : List Char} {count : Nat}
    : parseCount cs = .ok count ↔ NumberPart 1 256 cs count := by
  rw [← bounded?_eq_some_iff (by decide), parseCount]
  cases found : bounded? 1 256 cs with
  | none => simp [maxCount, found, throw, throwThe, MonadExceptOf.throw]
  | some n => simp [maxCount, found, pure, Except.pure]

-----------------------------------------------------------------------------------------
-- Reading an address
-----------------------------------------------------------------------------------------

/-- Two readers one after the other succeed when both do. -/
theorem exists_of_bind_eq_ok {α β : Type} {first : Except Fault α} {second : α → Except Fault β}
    {value : β} (read : (first >>= second) = .ok value)
    : ∃ found, first = .ok found ∧ second found = .ok value := by
  cases first with
  | error fault => cases read
  | ok found => exact ⟨found, rfl, read⟩

/-- What is taken off the end of a text is a count part. -/
theorem exists_countPart {cs rest : List Char} {count : Nat}
    (taken : takeCount cs = .ok (rest, count))
    : ∃ text, cs = rest ++ text ∧ CountPart text count := by
  unfold takeCount at taken
  split at taken
  · next last =>
      split at taken
      · cases taken
      · next front text cut =>
          obtain ⟨found, read, same⟩ := exists_of_bind_eq_ok taken
          cases same
          refine ⟨'(' :: (text ++ [')']), ?_, .given (parseCount_eq_ok_iff.mp read)⟩
          rw [← List.dropLast_append_getLast? _ last, eq_of_splitLast? cut]
          simp
  · split at taken
    · cases taken
    · cases taken
      exact ⟨[], (List.append_nil _).symm, .absent⟩

/-- A count part is taken off the end of a text without parentheses. -/
theorem takeCount_of_countPart {rest text : List Char} {count : Nat}
    (counted : CountPart text count) (opening : '(' ∉ rest) (closing : ')' ∉ rest)
    : takeCount (rest ++ text) = .ok (rest, count) := by
  cases counted with
  | absent =>
      have last : rest.getLast? ≠ some ')' := fun found => closing (List.mem_of_getLast? found)
      rw [List.append_nil, takeCount, if_neg last, if_neg (by simpa using opening)]
      rfl
  | @given text count number =>
      have inside : ∀ c ∈ text, c ≠ '(' :=
        List.forall_mem_ne'.mpr (notMem_of_isMark (by decide) number.isMark_eq)
      have chars : rest ++ '(' :: (text ++ [')']) = (rest ++ '(' :: text) ++ [')'] := by simp
      rw [takeCount, chars, if_pos List.getLast?_concat, List.dropLast_concat,
        splitLast?_append inside]
      simp only [parseCount_eq_ok_iff.mpr number]
      rfl

/-- An address that is read consists of the parts that were cut. -/
theorem denotes_of_parseChars {cs : List Char} {address : Address}
    (read : parseChars cs = .ok address)
    : Denotes cs address := by
  obtain ⟨⟨rest, count⟩, taken, front⟩ := exists_of_bind_eq_ok read
  obtain ⟨countText, rfl, counted⟩ := exists_countPart taken
  cases cut : splitFirst? '/' rest with
  | none =>
      simp only [cut] at front
      obtain ⟨ip, dotted, same⟩ := exists_of_bind_eq_ok front
      cases same
      have parts := Denotes.parts (parseIp_eq_ok_iff.mp dotted) .absent counted
      rwa [List.append_nil] at parts
  | some halves =>
      simp only [cut] at front
      obtain ⟨ip, dotted, back⟩ := exists_of_bind_eq_ok front
      obtain ⟨port, number, same⟩ := exists_of_bind_eq_ok back
      cases same
      rw [eq_of_splitFirst? cut]
      exact .parts (parseIp_eq_ok_iff.mp dotted) (.given (parsePort_eq_ok_iff.mp number)) counted

/-- Neither the IPv4 part nor the port holds a parenthesis. -/
theorem notMem_front {network portText : List Char} {ip : Net.Ipv4} {protocol : Protocol}
    {port : UInt8} (dotted : Padded ip.display.toList network)
    (numbered : PortPart portText protocol port) {mark : Char} (isMark_mark : isMark mark = true)
    (noSlash : mark ≠ '/')
    : mark ∉ network ++ portText := by
  have first := notMem_of_isMark isMark_mark (isMark_of_dotted dotted)
  cases numbered with
  | absent => simpa using first
  | given number =>
      have second := notMem_of_isMark isMark_mark number.isMark_eq
      simp [first, second, noSlash]

/-- The parts of an address are found by the marks between them, for no part holds one. -/
theorem parseChars_of_denotes {cs : List Char} {address : Address} (denotes : Denotes cs address)
    : parseChars cs = .ok address := by
  cases denotes with
  | @parts network portText countText ip protocol port count dotted numbered counted =>
      have taken := takeCount_of_countPart counted
        (notMem_front dotted numbered (by decide) (by decide))
        (notMem_front dotted numbered (by decide) (by decide))
      have noSlash : ∀ c ∈ network, c ≠ '/' :=
        List.forall_mem_ne'.mpr (notMem_of_isMark (by decide) (isMark_of_dotted dotted))
      rw [parseChars, taken]
      cases numbered with
      | absent =>
          simp only [bind, Except.bind, List.append_nil, splitFirst?_of_forall noSlash,
            parseIp_eq_ok_iff.mpr dotted]
          rfl
      | given number =>
          simp only [bind, Except.bind, splitFirst?_append noSlash,
            parseIp_eq_ok_iff.mpr dotted, parsePort_eq_ok_iff.mpr number]
          rfl

theorem parse_eq_ok_iff {input : String} {address : Address}
    : parse input = .ok address ↔ Denotes (trim input).toList address := by
  rw [trim, String.toList_ofList, parse]
  constructor
  · intro read
    cases chars : parseChars (trimChars input.toList) with
    | error fault => rw [chars] at read; cases read
    | ok found =>
        rw [chars] at read
        cases read
        exact denotes_of_parseChars chars
  · intro denotes
    rw [parseChars_of_denotes denotes]
    rfl

/-- A text is read as an address exactly if it stands for it once the blanks at its ends are taken
away. Every other text is refused, and the fault names the text as it was given.
-/
theorem parse_decides_grammar (input : String)
    : (∀ address, parse input = .ok address ↔ Denotes (trim input).toList address)
      ∧ ((∃ fault, parse input = .error ⟨input, fault⟩)
        ↔ ∀ address, ¬Denotes (trim input).toList address) := by
  refine ⟨fun address => parse_eq_ok_iff, ?_⟩
  simp only [← parse_eq_ok_iff]
  constructor
  · rintro ⟨fault, refused⟩ address read
    rw [refused] at read
    cases read
  · intro unread
    cases chars : parseChars (trimChars input.toList) with
    | error fault => exact ⟨fault, by rw [parse, chars]; rfl⟩
    | ok address => exact absurd (by rw [parse, chars]; rfl) (unread address)

/-- Only the last group is a count, so that another one in front of it is taken for a part of the
network address.
-/
example : parse "10.0.0.5(1)(2)" = .error ⟨"10.0.0.5(1)(2)", .ip "10.0.0.5(1)"⟩ := by
  decide +kernel

end PixelTree.Kinet.Address
