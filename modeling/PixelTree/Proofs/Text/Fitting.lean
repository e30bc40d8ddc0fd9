import PixelTree.Proofs.Text.Utf8

/-! Encoded text that is cut after a number of bytes. What is left is decoded as the characters that
fit as wholes, and as one fault behind them if the cut is inside a character.
-/

namespace PixelTree.Text

/-- The characters up to the first that does not fit into the bytes that are left. -/
def fitting : (room : Nat) → List Char → List Char
  | _, [] => []
  | room, c :: rest =>
    if c.utf8Size ≤ room then c :: fitting (room - c.utf8Size) rest else []

/-- The longest start of a text that fits into a number of bytes. -/
def fittingText (room : Nat) (s : String) : String :=
  String.ofList (fitting room s.toList)

/-- The bytes end inside a character. -/
def SplitsChar (room : Nat) (cs : List Char) : Prop :=
  ((fitting room cs).flatMap String.utf8EncodeChar).length
    < min room (cs.flatMap String.utf8EncodeChar).length

instance (room : Nat) (cs : List Char) : Decidable (SplitsChar room cs) :=
  inferInstanceAs (Decidable (_ < _))

-----------------------------------------------------------------------------------------
-- The characters that fit
-----------------------------------------------------------------------------------------

theorem fitting_cons_of_le {room : Nat} {c : Char} (fits : c.utf8Size ≤ room) (rest : List Char)
    : fitting room (c :: rest) = c :: fitting (room - c.utf8Size) rest := by
  rw [fitting, if_pos fits]

theorem fitting_cons_of_lt {room : Nat} {c : Char} (large : room < c.utf8Size) (rest : List Char)
    : fitting room (c :: rest) = [] := by
  rw [fitting, if_neg (Nat.not_le.mpr large)]

theorem fitting_prefix (room : Nat) (cs : List Char) : fitting room cs <+: cs := by
  induction cs generalizing room with
  | nil => exact List.prefix_rfl
  | cons c rest ih =>
      rcases Nat.lt_or_ge room c.utf8Size with large | fits
      · rw [fitting_cons_of_lt large]
        exact List.nil_prefix
      · rw [fitting_cons_of_le fits]
        exact List.cons_prefix_cons.mpr ⟨rfl, ih _⟩

theorem length_fitting_le (room : Nat) (cs : List Char)
    : ((fitting room cs).flatMap String.utf8EncodeChar).length ≤ room := by
  induction cs generalizing room with
  | nil => exact Nat.zero_le room
  | cons c rest ih =>
      rcases Nat.lt_or_ge room c.utf8Size with large | fits
      · simp [fitting_cons_of_lt large]
      · have tail := ih (room - c.utf8Size)
        rw [fitting_cons_of_le fits, List.flatMap_cons, List.length_append,
          String.length_utf8EncodeChar]
        omega

/-- No start of a text that fits is longer. -/
theorem prefix_fitting {room : Nat} {front cs : List Char} (starts : front <+: cs)
    (fits : (front.flatMap String.utf8EncodeChar).length ≤ room)
    : front <+: fitting room cs := by
  induction cs generalizing room front with
  | nil => exact starts
  | cons c rest ih =>
      rcases List.prefix_cons_iff.mp starts with rfl | ⟨tail, rfl, tailStarts⟩
      · exact List.nil_prefix
      · rw [List.flatMap_cons, List.length_append, String.length_utf8EncodeChar] at fits
        rw [fitting_cons_of_le (Nat.le_of_add_right_le fits)]
        exact List.cons_prefix_cons.mpr ⟨rfl, ih tailStarts (by omega)⟩

/-- A start of a text that fits into some bytes, and none longer does. -/
structure LongestFit (room : Nat) (s kept : String) : Prop where
  starts : kept.toList <+: s.toList
  fits : (utf8 kept).length ≤ room
  longest : ∀ longer : String,
    longer.toList <+: s.toList → (utf8 longer).length ≤ room → longer.toList <+: kept.toList

theorem longestFit_fittingText (room : Nat) (s : String)
    : LongestFit room s (fittingText room s) where
  starts := by
    rw [fittingText, String.toList_ofList]
    exact fitting_prefix room s.toList
  fits := by
    rw [fittingText, utf8, String.toList_ofList]
    exact length_fitting_le room s.toList
  longest longer starts fits := by
    rw [fittingText, String.toList_ofList]
    exact prefix_fitting starts fits

theorem LongestFit.length_le {room : Nat} {s kept : String} (longest : LongestFit room s kept)
    : (utf8 kept).length ≤ min room (utf8 s).length := by
  obtain ⟨rest, whole⟩ := longest.starts
  have shorter : (utf8 kept).length ≤ (utf8 s).length := by
    rw [utf8, utf8, ← whole, List.flatMap_append, List.length_append]
    exact Nat.le_add_right ..
  exact Nat.le_min.mpr ⟨longest.fits, shorter⟩

/-- A text that fits is kept. -/
theorem LongestFit.eq_self {room : Nat} {s kept : String} (longest : LongestFit room s kept)
    (fits : (utf8 s).length ≤ room)
    : kept = s := by
  have whole := longest.longest s List.prefix_rfl fits
  exact String.toList_inj.mp (longest.starts.eq_of_length_le whole.length_le)

/-- With a replacement behind it for a character that is split, the longest start that fits is still
a start of the text exactly if no character is split, or if that is a replacement itself.
-/
theorem LongestFit.prefix_iff {room : Nat} {s kept : String} (longest : LongestFit room s kept)
    : (if (utf8 kept).length < min room (utf8 s).length then kept ++ "\ufffd" else kept).toList
        <+: s.toList
      ↔ (utf8 kept).length = min room (utf8 s).length
        ∨ (kept ++ "\ufffd").toList <+: s.toList := by
  have most := longest.length_le
  split
  · next cut =>
      constructor
      · exact Or.inr
      · intro starts
        rcases starts with uncut | starts
        · exact absurd uncut (Nat.ne_of_lt cut)
        · exact starts
  · next uncut =>
      constructor
      · intro _
        exact Or.inl (Nat.le_antisymm most (Nat.not_lt.mp uncut))
      · intro _
        exact longest.starts

-----------------------------------------------------------------------------------------
-- The cut
-----------------------------------------------------------------------------------------

theorem continuation_nil (low high : UInt8) (bits more : Nat)
    : continuation low high bits more [] = (none, []) := by
  rw [continuation]

/-- A sequence that is read to its end takes as many bytes as it asks for. -/
theorem length_of_continuation {low high : UInt8} {bits more n : Nat} {bytes rest : List UInt8}
    (read : continuation low high bits more bytes = (some n, rest))
    : bytes.length = rest.length + more + 1 := by
  induction bytes generalizing low high bits more with
  | nil =>
      rw [continuation_nil] at read
      cases read
  | cons b others ih =>
      rw [continuation] at read
      split at read
      · cases more with
        | zero =>
            obtain ⟨_, rfl⟩ := Prod.mk.inj read
            rfl
        | succ more =>
            rw [List.length_cons, ih read]
            omega
      · cases read

/-- A sequence that breaks off before its last byte is no character, and none of it is left. -/
theorem continuation_take {low high : UInt8} {bits more n count : Nat} {bytes rest : List UInt8}
    (read : continuation low high bits more bytes = (some n, rest)) (short : count ≤ more)
    : continuation low high bits more (bytes.take count) = (none, []) := by
  induction bytes generalizing low high bits more count with
  | nil =>
      rw [continuation_nil] at read
      cases read
  | cons b others ih =>
      cases count with
      | zero => exact continuation_nil ..
      | succ count =>
          rw [List.take_succ_cons]
          rw [continuation] at read ⊢
          split at read
          · next inside =>
              rw [if_pos inside]
              cases more with
              | zero => exact absurd short (Nat.not_succ_le_zero count)
              | succ more => exact ih read (Nat.le_of_succ_le_succ short)
          · cases read

theorem decodeChar_take {b : UInt8} {c : Char} {bytes : List UInt8} {count : Nat}
    (read : decodeChar b bytes = (some c, [])) (short : count < bytes.length)
    : decodeChar b (bytes.take count) = (none, []) := by
  unfold decodeChar at read ⊢
  split at read
  · obtain ⟨_, rfl⟩ := Prod.mk.inj read
    exact absurd short (Nat.not_lt_zero count)
  · next long =>
      rw [if_neg long]
      cases leads : lead? b with
      | none =>
          rw [leads] at read
          cases read
      | some lead =>
          simp only [leads] at read ⊢
          cases continues : continuation lead.low lead.high lead.bits lead.more bytes with
          | mk number rest =>
              simp only [continues, Prod.mk.injEq, Option.map_eq_some_iff] at read
              obtain ⟨⟨n, rfl, _⟩, rfl⟩ := read
              have length := length_of_continuation continues
              simp only [List.length_nil] at length
              rw [continuation_take continues (by omega)]
              rfl

/-- A character that is cut is one fault. -/
theorem decodeAll_cut {c : Char} {count : Nat} (positive : 0 < count)
    (short : count < c.utf8Size)
    : decodeAll ((String.utf8EncodeChar c).take count) = [none] := by
  obtain ⟨b, others, encoded, read⟩ := decodeChar_encoded c
  have size := String.length_utf8EncodeChar c
  rw [encoded, List.length_cons] at size
  have whole := read []
  rw [List.append_nil] at whole
  obtain ⟨kept, rfl⟩ := Nat.exists_eq_succ_of_ne_zero (Nat.ne_of_gt positive)
  rw [encoded, List.take_succ_cons, decodeAll, decodeChar_take whole (by omega), decodeAll]

/-- Text that is cut is decoded as the characters that fit, and one fault if the cut splits another,
by induction over the characters.
-/
theorem decodeAll_take (room : Nat) (cs : List Char)
    : decodeAll ((cs.flatMap String.utf8EncodeChar).take room)
      = (fitting room cs).map some ++ (if SplitsChar room cs then [none] else []) := by
  induction cs generalizing room with
  | nil =>
      rw [List.flatMap_nil, List.take_nil, decodeAll]
      simp [fitting, SplitsChar]
  | cons c rest ih =>
      have size := String.length_utf8EncodeChar c
      rw [List.flatMap_cons, List.take_append, size]
      rcases Nat.lt_or_ge room c.utf8Size with large | fits
      · rw [Nat.sub_eq_zero_of_le (Nat.le_of_lt large), List.take_zero, List.append_nil,
          fitting_cons_of_lt large, List.map_nil, List.nil_append]
        rcases Nat.eq_zero_or_pos room with rfl | positive
        · rw [List.take_zero, decodeAll, if_neg (by simp [SplitsChar])]
        · have splits : SplitsChar room (c :: rest) := by
            simp only [SplitsChar, fitting_cons_of_lt large, List.flatMap_nil, List.length_nil,
              List.flatMap_cons, List.length_append, size]
            omega
          rw [decodeAll_cut positive large, if_pos splits]
      · have same : SplitsChar room (c :: rest) ↔ SplitsChar (room - c.utf8Size) rest := by
          simp only [SplitsChar, fitting_cons_of_le fits, List.flatMap_cons, List.length_append,
            size]
          omega
        rw [List.take_of_length_le (by omega), decodeAll_append, ih, fitting_cons_of_le fits,
          List.map_cons, List.cons_append]
        simp only [same]

/-- An encoded text that is cut is decoded as its longest start that fits, and a replacement if the
cut splits a character.
-/
theorem decodeLenient_take_utf8 (room : Nat) (s : String)
    : decodeLenient ((utf8 s).take room)
      = if (utf8 (fittingText room s)).length < min room (utf8 s).length
        then fittingText room s ++ "\ufffd"
        else fittingText room s := by
  have same : (utf8 (fittingText room s)).length < min room (utf8 s).length
      ↔ SplitsChar room s.toList := by
    simp only [utf8, fittingText, String.toList_ofList, SplitsChar]
  simp only [same]
  rw [decodeLenient, utf8, decodeAll_take, fittingText]
  split
  · simp only [List.map_append, List.map_map, String.ofList_append]
    simp [Function.comp_def, replacement]
  · simp [Function.comp_def]

end PixelTree.Text
