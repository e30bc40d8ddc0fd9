import Mathlib
import PixelTree.Descriptor.Split

/-! Trimming leaves a text alone that starts and ends with something other than a blank. -/

namespace PixelTree.Text

open Descriptor (length_trimChars_le)

/-- A text that starts and ends with characters that are not blank. -/
structure Tidy (cs : List Char) : Prop where
  first : ∃ c, cs.head? = some c ∧ isBlank c = false
  last : ∃ c, cs.getLast? = some c ∧ isBlank c = false

/-- The visible characters of ASCII are no blanks, by the first two ranges of blanks. -/
theorem isBlank_eq_false_of_visible {c : Char} (low : 33 ≤ c.toNat) (high : c.toNat ≤ 126)
    : isBlank c = false := by
  simp only [isBlank, blankRanges, List.any_cons, List.any_nil, Bool.or_false,
    Bool.or_eq_false_iff, Bool.and_eq_false_iff, decide_eq_false_iff_not]
  omega

theorem isBlank_eq_false_of_isDigit {c : Char} (digit : c.isDigit = true)
    : isBlank c = false := by
  simp only [Char.isDigit, Bool.and_eq_true, decide_eq_true_eq] at digit
  have low : 48 ≤ c.toNat := digit.1
  have high : c.toNat ≤ 57 := digit.2
  exact isBlank_eq_false_of_visible (by omega) (by omega)

/-- Letters and digits of ASCII are no blanks. -/
theorem isBlank_eq_false_of_isAlphanum {c : Char} (word : c.isAlphanum = true)
    : isBlank c = false := by
  simp only [Char.isAlphanum, Char.isAlpha, Char.isUpper, Char.isLower, Char.isDigit,
    Bool.or_eq_true, Bool.and_eq_true, decide_eq_true_eq] at word
  have bounds : 48 ≤ c.toNat ∧ c.toNat ≤ 122 := by
    rcases word with (⟨low, high⟩ | ⟨low, high⟩) | ⟨low, high⟩
    · have low : 65 ≤ c.toNat := low
      have high : c.toNat ≤ 90 := high
      omega
    · have low : 97 ≤ c.toNat := low
      have high : c.toNat ≤ 122 := high
      omega
    · have low : 48 ≤ c.toNat := low
      have high : c.toNat ≤ 57 := high
      omega
  exact isBlank_eq_false_of_visible (by omega) (by omega)

theorem Tidy.of_forall {cs : List Char} (nonempty : cs ≠ [])
    (visible : ∀ c ∈ cs, isBlank c = false)
    : Tidy cs where
  first := ⟨cs.head nonempty, List.head?_eq_some_head nonempty, visible _ (List.head_mem _)⟩
  last :=
    ⟨cs.getLast nonempty, List.getLast?_eq_some_getLast nonempty,
      visible _ (List.getLast_mem _)⟩

theorem Tidy.singleton {c : Char} (visible : isBlank c = false) : Tidy [c] :=
  .of_forall (List.cons_ne_nil c []) (List.forall_mem_singleton.mpr visible)

theorem Tidy.ne_nil {cs : List Char} (tidy : Tidy cs) : cs ≠ [] := by
  rintro rfl
  obtain ⟨c, head, _⟩ := tidy.first
  simp at head

/-- Whatever stands between two tidy texts, the whole is tidy. -/
theorem Tidy.append {front back : List Char} (hf : Tidy front) (middle : List Char)
    (hb : Tidy back)
    : Tidy (front ++ (middle ++ back)) where
  first := by
    obtain ⟨c, head, visible⟩ := hf.first
    exact ⟨c, by simp [List.head?_append, head], visible⟩
  last := by
    obtain ⟨c, last, visible⟩ := hb.last
    exact ⟨c, by simp [List.getLast?_append, last], visible⟩

theorem Tidy.not_isAllBlank {cs : List Char} (tidy : Tidy cs) : isAllBlank cs = false := by
  obtain ⟨c, head, visible⟩ := tidy.first
  exact List.all_eq_false.mpr ⟨c, List.mem_of_head? head, by simp [visible]⟩

/-- Nothing is dropped at the start of a text that starts with something visible. -/
theorem dropWhile_isBlank_of_head? {cs : List Char} {c : Char} (head : cs.head? = some c)
    (visible : isBlank c = false)
    : cs.dropWhile isBlank = cs := by
  cases cs with
  | nil => rfl
  | cons first rest =>
      obtain rfl : first = c := by simpa using head
      simp [visible]

/-- Trimming a tidy text changes nothing, since neither end drops a character. -/
theorem Tidy.trimChars_eq {cs : List Char} (tidy : Tidy cs) : trimChars cs = cs := by
  obtain ⟨first, head, headVisible⟩ := tidy.first
  obtain ⟨last, tail, tailVisible⟩ := tidy.last
  rw [trimChars, dropWhile_isBlank_of_head? head headVisible, dropBlankEnd,
    dropWhile_isBlank_of_head? (by rw [List.head?_reverse, tail]) tailVisible,
    List.reverse_reverse]

theorem trimChars_cons_of_isBlank {c : Char} (blank : isBlank c = true) (cs : List Char)
    : trimChars (c :: cs) = trimChars cs := by
  simp [trimChars, blank]

/-- A blank at the end is trimmed away, whether or not anything stands in front of it. -/
theorem trimChars_concat_of_isBlank {c : Char} (blank : isBlank c = true) (cs : List Char)
    : trimChars (cs ++ [c]) = trimChars cs := by
  cases visible : cs.dropWhile isBlank with
  | nil =>
      have allBlank : ∀ d ∈ cs, isBlank d = true := by
        simpa only [List.dropWhile_eq_nil_iff] using visible
      have whole : (cs ++ [c]).dropWhile isBlank = [] := by
        rw [List.dropWhile_eq_nil_iff]
        intro d member
        rcases List.mem_append.mp member with member | member
        · exact allBlank d member
        · rwa [List.mem_singleton.mp member]
      rw [trimChars, trimChars, whole, visible]
  | cons first rest =>
      have longer : (cs ++ [c]).dropWhile isBlank = first :: rest ++ [c] := by
        rw [List.dropWhile_append, visible]
        rfl
      rw [trimChars, trimChars, longer, visible, dropBlankEnd, List.reverse_append]
      simp [dropBlankEnd, blank]

/-- Blanks in front of a text are trimmed away. -/
theorem trimChars_append_left {front : List Char} (blank : ∀ c ∈ front, isBlank c = true)
    (cs : List Char)
    : trimChars (front ++ cs) = trimChars cs := by
  rw [trimChars, List.dropWhile_append_of_pos blank, trimChars]

/-- Blanks behind a text are trimmed away, by induction over them. -/
theorem trimChars_append_right {back : List Char} (blank : ∀ c ∈ back, isBlank c = true)
    (cs : List Char)
    : trimChars (cs ++ back) = trimChars cs := by
  induction back generalizing cs with
  | nil => rw [List.append_nil]
  | cons c rest ih =>
      rw [List.append_cons, ih (fun d member => blank d (List.mem_cons_of_mem _ member)),
        trimChars_concat_of_isBlank (blank c List.mem_cons_self)]

/-- A text that starts with something visible starts with the same when it is trimmed. -/
theorem head?_trimChars_cons {c : Char} (visible : isBlank c = false) (cs : List Char)
    : (trimChars (c :: cs)).head? = some c := by
  have plain : ¬isBlank c = true := by simp [visible]
  rw [trimChars, List.dropWhile_cons_of_neg plain, dropBlankEnd, List.head?_reverse,
    List.reverse_cons, List.dropWhile_append]
  split
  · rw [List.dropWhile_cons_of_neg plain]
    rfl
  · exact List.getLast?_concat ..

/-- A text that trimming leaves alone and that is not empty is tidy: a blank at either end would
have made it shorter.
-/
theorem Tidy.of_trimChars_eq {cs : List Char} (nonempty : cs ≠ []) (same : trimChars cs = cs)
    : Tidy cs := by
  constructor
  · cases cs with
    | nil => exact absurd rfl nonempty
    | cons c rest =>
        refine ⟨c, rfl, ?_⟩
        cases blank : isBlank c with
        | false => rfl
        | true =>
            have shorter := length_trimChars_le rest
            rw [← trimChars_cons_of_isBlank blank, same, List.length_cons] at shorter
            omega
  · refine ⟨cs.getLast nonempty, List.getLast?_eq_some_getLast nonempty, ?_⟩
    cases blank : isBlank (cs.getLast nonempty) with
    | false => rfl
    | true =>
        have shorter := length_trimChars_le cs.dropLast
        rw [← trimChars_concat_of_isBlank blank, List.dropLast_concat_getLast nonempty, same,
          List.length_dropLast] at shorter
        have positive := List.length_pos_iff.mpr nonempty
        omega

theorem eq_nil_or_tidy {cs : List Char} (same : trimChars cs = cs) : cs = [] ∨ Tidy cs := by
  by_cases empty : cs = []
  · exact Or.inl empty
  · exact Or.inr (Tidy.of_trimChars_eq empty same)

/-- What is trimmed away is blank. -/
theorem exists_blank_ends (cs : List Char)
    : ∃ front back,
        cs = front ++ (trimChars cs ++ back)
        ∧ (∀ c ∈ front, isBlank c = true)
        ∧ ∀ c ∈ back, isBlank c = true := by
  let rest := cs.dropWhile isBlank
  refine ⟨cs.takeWhile isBlank, (rest.reverse.takeWhile isBlank).reverse, ?_, ?_, ?_⟩
  · have whole : trimChars cs ++ (rest.reverse.takeWhile isBlank).reverse = rest := by
      rw [trimChars, dropBlankEnd, ← List.reverse_append, List.takeWhile_append_dropWhile,
        List.reverse_reverse]
    rw [whole, List.takeWhile_append_dropWhile]
  · intro c member
    exact List.mem_takeWhile_imp member
  · intro c member
    exact List.mem_takeWhile_imp (List.mem_reverse.mp member)

theorem dropBlankEnd_dropBlankEnd (cs : List Char)
    : dropBlankEnd (dropBlankEnd cs) = dropBlankEnd cs := by
  rw [dropBlankEnd, dropBlankEnd, List.reverse_reverse, List.dropWhile_idempotent]

/-- Trimming twice is trimming once: what is left at the first end starts as before. -/
@[simp] theorem trimChars_trimChars (cs : List Char)
    : trimChars (trimChars cs) = trimChars cs := by
  have start : (trimChars cs).dropWhile isBlank = trimChars cs := by
    have kept : (cs.dropWhile isBlank).dropWhile isBlank = cs.dropWhile isBlank :=
      List.dropWhile_idempotent ..
    have front : trimChars cs <+: cs.dropWhile isBlank := by
      rw [← List.reverse_suffix, trimChars, dropBlankEnd, List.reverse_reverse]
      exact List.dropWhile_suffix _
    cases trimmed : trimChars cs with
    | nil => rfl
    | cons c others =>
        obtain ⟨back, whole⟩ := front
        rw [trimmed, List.cons_append] at whole
        rw [← whole] at kept
        cases blank : isBlank c with
        | false => simp [blank]
        | true =>
            rw [List.dropWhile_cons_of_pos blank] at kept
            have shorter := (List.dropWhile_sublist isBlank (l := others ++ back)).length_le
            rw [kept, List.length_cons] at shorter
            omega
  rw [trimChars, start, trimChars, dropBlankEnd_dropBlankEnd]

/-- A text that is not blank is tidy once it is trimmed. -/
theorem tidy_trimChars {cs : List Char} (visible : isAllBlank cs = false)
    : Tidy (trimChars cs) := by
  refine Tidy.of_trimChars_eq ?_ (trimChars_trimChars cs)
  intro empty
  obtain ⟨front, back, whole, frontBlank, backBlank⟩ := exists_blank_ends cs
  rw [empty, List.nil_append] at whole
  have blank : isAllBlank cs = true := by
    rw [whole, isAllBlank, List.all_append, Bool.and_eq_true]
    exact ⟨List.all_eq_true.mpr frontBlank, List.all_eq_true.mpr backBlank⟩
  rw [blank] at visible
  cases visible

/-- Trimming leaves a text blank or not. -/
@[simp] theorem isAllBlank_trimChars (cs : List Char)
    : isAllBlank (trimChars cs) = isAllBlank cs := by
  obtain ⟨front, back, whole, frontBlank, backBlank⟩ := exists_blank_ends cs
  have ends : front.all isBlank = true ∧ back.all isBlank = true :=
    ⟨List.all_eq_true.mpr frontBlank, List.all_eq_true.mpr backBlank⟩
  conv => rhs; rw [whole, isAllBlank, List.all_append, List.all_append, ends.1, ends.2]
  simp [isAllBlank]

/-- A tidy text between blanks is what is left when these are trimmed away. -/
theorem trim_between {left s right : String} (leftBlank : isAllBlank left.toList = true)
    (tidy : Tidy s.toList) (rightBlank : isAllBlank right.toList = true)
    : trim (left ++ s ++ right) = s := by
  rw [trim, String.toList_append, String.toList_append,
    trimChars_append_right (List.all_eq_true.mp rightBlank),
    trimChars_append_left (List.all_eq_true.mp leftBlank), tidy.trimChars_eq, String.ofList_toList]

theorem trim_eq_of_tidy {s : String} (tidy : Tidy s.toList) : trim s = s := by
  rw [trim, tidy.trimChars_eq, String.ofList_toList]

-----------------------------------------------------------------------------------------
-- Texts between blanks
-----------------------------------------------------------------------------------------

/-- A text is another one with nothing but blanks around it. -/
def Padded (core cs : List Char) : Prop :=
  ∃ front back,
    cs = front ++ (core ++ back)
    ∧ (∀ c ∈ front, isBlank c = true)
    ∧ ∀ c ∈ back, isBlank c = true

/-- Trimming finds the tidy text between the blanks. -/
theorem Padded.trimChars_eq {core cs : List Char} (padded : Padded core cs) (tidy : Tidy core)
    : trimChars cs = core := by
  obtain ⟨front, back, rfl, frontBlank, backBlank⟩ := padded
  rw [trimChars_append_left frontBlank, trimChars_append_right backBlank, tidy.trimChars_eq]

theorem padded_trimChars (cs : List Char) : Padded (trimChars cs) cs :=
  exists_blank_ends cs

/-- The characters of a padded text are blanks and those of the text between them. -/
theorem Padded.chars {core cs : List Char} (padded : Padded core cs)
    : ∀ c ∈ cs, isBlank c = true ∨ c ∈ core := by
  obtain ⟨front, back, rfl, frontBlank, backBlank⟩ := padded
  intro c member
  rcases List.mem_append.mp member with inFront | later
  · exact Or.inl (frontBlank c inFront)
  · rcases List.mem_append.mp later with inCore | inBack
    · exact Or.inr inCore
    · exact Or.inl (backBlank c inBack)

end PixelTree.Text
