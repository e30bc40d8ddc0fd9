import PixelTree.Proofs.Descriptor.Nested
import PixelTree.Proofs.Descriptor.Printing

/-! The grammar of descriptors.
Writing a chain of stages in front of a device or a list and taking the text apart gives the
chain back, and whatever can be taken apart is a chain that the grammar can write.
-/

namespace PixelTree.Descriptor

open Text

/-- A device is written as its stage, a list as its members between brackets. -/
def Leaf.display : Leaf → String
  | .device stage => stage.display
  | .list items => "[" ++ ", ".intercalate items ++ "]"

/-- The filters and what they end in, with bars between them. -/
def Pipeline.display (pipeline : Pipeline) : String :=
  "|".intercalate (pipeline.filters.map Stage.display ++ [pipeline.leaf.display])

/-- A word, and arguments that keep commas and bars inside groups and quotes. A single empty
argument is not told from a missing one.
-/
structure Stage.Printable (stage : Stage) : Prop where
  named : stage.name ≠ ""
  nameChars : ∀ c ∈ stage.name.toList, isNameChar c = true
  trimmed : ∀ arg ∈ stage.args, trim arg = arg
  nested : ∀ arg ∈ stage.args, Nested [',', '|'] arg.toList
  notBlank : stage.args ≠ [""]

/-- Members that keep commas inside groups and quotes. They may have bars. -/
structure PrintableItems (items : List String) : Prop where
  nonempty : items ≠ []
  trimmed : ∀ item ∈ items, trim item = item
  nested : ∀ item ∈ items, Nested [','] item.toList
  notBlank : items ≠ [""]

def Leaf.Printable : Leaf → Prop
  | .device stage => stage.Printable
  | .list items => PrintableItems items

structure Pipeline.Printable (pipeline : Pipeline) : Prop where
  filters : ∀ stage ∈ pipeline.filters, stage.Printable
  leaf : pipeline.leaf.Printable

-----------------------------------------------------------------------------------------
-- What the grammar writes
-----------------------------------------------------------------------------------------

theorem trim_eq_iff {s : String} : trim s = s ↔ trimChars s.toList = s.toList := by
  rw [← String.toList_inj, trim, String.toList_ofList]

/-- The stages that the grammar writes are those with whole parts. -/
theorem Stage.printable_iff {stage : Stage} : stage.Printable ↔ stage.WellFormed := by
  constructor
  · intro printable
    refine ⟨printable.named, printable.nameChars, ?_, ?_, printable.notBlank⟩
    · intro arg member
      exact ⟨trim_eq_iff.mp (printable.trimmed arg member),
        (printable.nested arg member).whole (Or.inl (by simp))⟩
    · intro arg member
      exact (printable.nested arg member).whole (Or.inl (by simp))
  · intro formed
    refine ⟨formed.named, formed.nameChars, ?_, ?_, formed.notBlank⟩
    · intro arg member
      exact (formed.separate arg member).trim_eq
    · intro arg member
      have comma := (formed.separate arg member).whole
      refine nested_iff.mpr ⟨comma.balanced, ?_⟩
      simpa using ⟨comma, formed.unbarred arg member⟩

namespace PrintableItems

variable {items : List String}

theorem isToken (printable : PrintableItems items) : ∀ item ∈ items, IsToken ',' item := by
  intro item member
  exact ⟨trim_eq_iff.mp (printable.trimmed item member),
    (printable.nested item member).whole (Or.inl (by simp))⟩

/-- The members between brackets are read back. -/
theorem parseLeaf_display (printable : PrintableItems items)
    : parseLeaf (Leaf.list items).display = .ok (.list items) := by
  have separate := printable.isToken
  rw [Leaf.display, parseLeaf_list, parseList_commaBlank printable.nonempty
    (not_isAllBlank_of_isToken separate printable.notBlank)
    (fun item member => (separate item member).whole), map_trim_of_isToken separate]
  rfl

end PrintableItems

namespace Leaf.Printable

variable {leaf : Leaf}

theorem tidy_display (printable : leaf.Printable) : Tidy leaf.display.toList := by
  cases leaf with
  | device stage => exact (Stage.printable_iff.mp printable).tidy_display
  | list items => exact tidy_brackets _

theorem whole_display (printable : leaf.Printable) : Whole '|' leaf.display.toList := by
  cases leaf with
  | device stage => exact (Stage.printable_iff.mp printable).whole_display
  | list items =>
      exact whole_brackets (fun item member => (printable.nested item member).balanced) '|'

theorem parseLeaf_display (printable : leaf.Printable) : parseLeaf leaf.display = .ok leaf := by
  cases leaf with
  | device stage => exact parseLeaf_device (Stage.printable_iff.mp printable)
  | list items => exact PrintableItems.parseLeaf_display printable

end Leaf.Printable

namespace Pipeline

/-- The first filter stands in front of what the others are written as. -/
theorem display_cons (stage : Stage) (filters : List Stage) (leaf : Leaf)
    : (⟨stage :: filters, leaf⟩ : Pipeline).display
      = stage.display ++ "|" ++ (⟨filters, leaf⟩ : Pipeline).display := by
  obtain ⟨first, others, segments⟩ :
      ∃ first others, filters.map Stage.display ++ [leaf.display] = first :: others :=
    List.exists_cons_of_ne_nil (by simp)
  rw [display, display, List.map_cons, List.cons_append, segments, ← String.toList_inj]
  simp only [String.toList_append, String.toList_intercalate, List.map_cons,
    List.intercalate_cons_cons]

theorem display_leaf (leaf : Leaf) : (⟨[], leaf⟩ : Pipeline).display = leaf.display := by
  rw [← String.toList_inj, display, String.toList_intercalate]
  simp

/-- A written chain starts and ends with something visible, by induction over its filters. -/
theorem Printable.tidy_display {filters : List Stage} {leaf : Leaf}
    (printable : Pipeline.Printable ⟨filters, leaf⟩)
    : Tidy (⟨filters, leaf⟩ : Pipeline).display.toList := by
  induction filters with
  | nil =>
      rw [display_leaf]
      exact printable.leaf.tidy_display
  | cons stage rest ih =>
      obtain ⟨head, others⟩ := List.forall_mem_cons.mp printable.filters
      rw [display_cons, String.toList_append, String.toList_append, List.append_assoc]
      exact (Stage.printable_iff.mp head).tidy_display.append _ (ih ⟨others, printable.leaf⟩)

/-- A written chain is read back, by induction over its filters. -/
theorem Printable.parse_display {filters : List Stage} {leaf : Leaf}
    (printable : Pipeline.Printable ⟨filters, leaf⟩)
    : parse (⟨filters, leaf⟩ : Pipeline).display = .ok ⟨filters, leaf⟩ := by
  induction filters with
  | nil =>
      rw [display_leaf, parse_of_whole printable.leaf.tidy_display printable.leaf.whole_display,
        printable.leaf.parseLeaf_display]
      rfl
  | cons stage rest ih =>
      obtain ⟨head, others⟩ := List.forall_mem_cons.mp printable.filters
      have formed := Stage.printable_iff.mp head
      have tail : Pipeline.Printable ⟨rest, leaf⟩ := ⟨others, printable.leaf⟩
      rw [display_cons, parse_cons_eq_ok formed.whole_display]
      exact ⟨stage, _, formed.parseStage_display, ih tail, rfl⟩

end Pipeline

-----------------------------------------------------------------------------------------
-- What the parser reads
-----------------------------------------------------------------------------------------

/-- What splitting finds has no blanks at its ends and is not cut again. -/
theorem isToken_of_splitIn {context input : String} {delimiter : Char} {found : List String}
    (split : splitIn context delimiter input = .ok found)
    : ∀ token ∈ found, IsToken delimiter token := by
  obtain ⟨piece, pieces, _, cuts, rfl⟩ := exists_pieces_of_splitIn split
  obtain ⟨_, first, others⟩ := pieces_of_cut cuts
  rw [List.forall_mem_map]
  intro p member
  have whole : Whole delimiter p := by
    rcases List.mem_cons.mp member with rfl | member
    · exact first
    · exact others p member
  constructor
  · rw [String.toList_ofList, trimChars_trimChars]
  · rw [String.toList_ofList]
    exact whole.trimChars

/-- A single empty token is never found, for its text would be blank. -/
theorem ne_blank_of_splitIn {context input : String} {delimiter : Char} {found : List String}
    (split : splitIn context delimiter input = .ok found)
    : found ≠ [""] := by
  obtain ⟨piece, pieces, visible, cuts, rfl⟩ := exists_pieces_of_splitIn split
  intro blank
  rw [List.map_cons, List.cons.injEq, List.map_eq_nil_iff] at blank
  obtain ⟨empty, rfl⟩ := blank
  obtain ⟨text, _⟩ := pieces_of_cut cuts
  rw [List.intercalate_singleton] at text
  rw [text] at visible
  exact (tidy_trimChars visible).ne_nil (String.ofList_eq_empty_iff.mp empty)

/-- The pieces of a text that another delimiter does not cut are not cut by it. -/
theorem whole_of_splitIn {context input : String} {delimiter other : Char}
    {found : List String} (plain : Nesting.isStructural delimiter = false)
    (split : splitIn context delimiter input = .ok found) (whole : Whole other input.toList)
    : ∀ token ∈ found, Whole other token.toList := by
  obtain ⟨piece, pieces, _, cuts, rfl⟩ := exists_pieces_of_splitIn split
  obtain ⟨text, each⟩ := (cut_eq_ok plain).mp cuts
  have separator : Balanced [delimiter] := .of_forall (by simpa using plain)
  rw [text] at whole
  have pieceWhole :=
    Whole.of_intercalate separator (fun p member => (each p member).balanced) whole
  rw [List.forall_mem_map]
  intro p member
  rw [String.toList_ofList]
  exact (pieceWhole p member).trimChars

/-- A word between blanks opens and closes nothing. -/
theorem balanced_of_word {cs : List Char} (word : ∀ c ∈ trimChars cs, isNameChar c = true)
    : Balanced cs := by
  obtain ⟨front, back, text, frontBlank, backBlank⟩ := exists_blank_ends cs
  apply Balanced.of_forall
  rw [text]
  simp only [List.forall_mem_append]
  exact ⟨fun c member => Nesting.isStructural_of_isBlank (frontBlank c member),
    fun c member => (isNameChar_plain (word c member)).2.1,
    fun c member => Nesting.isStructural_of_isBlank (backBlank c member)⟩

/-- The stage that is read from a text without a bar outside its groups and quotes is one that
the grammar writes.
-/
theorem wellFormed_of_parseStage {text : String} {stage : Stage}
    (parsed : parseStage text = .ok stage) (whole : Whole '|' text.toList)
    : stage.WellFormed := by
  have name {front : List Char} (named : trimChars front ≠ [])
      (word : ∀ c ∈ trimChars front, isNameChar c = true)
      (same : stage.name = String.ofList (trimChars front))
      : stage.name ≠ "" ∧ ∀ c ∈ stage.name.toList, isNameChar c = true := by
    rw [same, String.toList_ofList, ne_eq, String.ofList_eq_empty_iff]
    exact ⟨named, word⟩
  rcases splitColon_cases text.toList with absent | ⟨front, back, noColon, colon⟩
  · obtain ⟨named, word, same, read⟩ :=
      (parseStage_eq_ok (splitColon_of_forall absent)).mp parsed
    have bare : stage.args = [] := (Except.ok.inj read).symm
    obtain ⟨named, nameChars⟩ := name named word same
    refine ⟨named, nameChars, ?_, ?_, ?_⟩ <;> simp [bare]
  · obtain ⟨named, word, same, read⟩ :=
      (parseStage_eq_ok (by rw [colon, splitColon_append noColon])).mp parsed
    obtain ⟨named, nameChars⟩ := name named word same
    have argsWhole : Whole '|' back := by
      have front : Balanced (front ++ [':']) := (balanced_of_word word).append rfl
      rw [colon, List.append_cons] at whole
      exact (Whole.parts front whole).2
    refine ⟨named, nameChars, isToken_of_splitIn read, ?_, ne_blank_of_splitIn read⟩
    exact whole_of_splitIn (by decide) read (by rwa [String.toList_ofList])

theorem printableItems_of_parseList {context input : String} {items : List String}
    (parsed : parseList context input = .ok items)
    : PrintableItems items := by
  have separate := isToken_of_splitIn parsed
  refine ⟨ne_nil_of_splitIn parsed, ?_, ?_, ne_blank_of_splitIn parsed⟩
  · intro item member
    exact (separate item member).trim_eq
  · intro item member
    exact nested_singleton.mpr (separate item member).whole

/-- A list keeps the texts of its members as they are read, a device is a stage. -/
theorem printable_of_parseLeaf {text : String} {leaf : Leaf} (parsed : parseLeaf text = .ok leaf)
    (whole : Whole '|' text.toList)
    : leaf.Printable := by
  unfold parseLeaf at parsed
  split at parsed
  · split at parsed
    · cases parsed
    · next inner _ =>
        obtain ⟨items, read, rfl⟩ := exists_of_map_eq_ok parsed
        exact printableItems_of_parseList read
  · obtain ⟨stage, read, rfl⟩ := exists_of_map_eq_ok parsed
    exact Stage.printable_iff.mpr (wellFormed_of_parseStage read whole)

/-- Whatever can be taken apart is a chain that the grammar writes. -/
theorem printable_of_parse {descriptor : String} {pipeline : Pipeline}
    (parsed : parse descriptor = .ok pipeline)
    : pipeline.Printable := by
  obtain ⟨segments, split, filters, last, leaf⟩ := parse_eq_ok.mp parsed
  have separate := isToken_of_splitIn split
  constructor
  · intro stage member
    obtain ⟨segment, found, read⟩ := exists_of_mem_mapM filters stage member
    have whole := (separate segment (List.mem_of_mem_dropLast found)).whole
    exact Stage.printable_iff.mpr (wellFormed_of_parseStage (parseFilter_eq_ok.mp read).2 whole)
  · cases found : segments.getLast? with
    | none =>
        rw [found] at last
        exact absurd rfl last
    | some segment =>
        rw [found] at leaf
        exact printable_of_parseLeaf leaf (separate segment (List.mem_of_getLast? found)).whole

/-- Taking a descriptor apart undoes writing it: every chain that the grammar writes is read back,
and every text that can be taken apart gives such a chain, so writing that down and reading it
again changes nothing.
-/
theorem parse_inverts_display
    : (∀ pipeline : Pipeline, pipeline.Printable → parse pipeline.display = .ok pipeline)
      ∧ ∀ descriptor pipeline,
        parse descriptor = .ok pipeline →
        pipeline.Printable ∧ parse pipeline.display = .ok pipeline := by
  constructor
  · intro pipeline printable
    exact printable.parse_display
  · intro descriptor pipeline parsed
    have printable := printable_of_parse parsed
    exact ⟨printable, printable.parse_display⟩

/-- Blanks, quotes with an escaped end, and separators inside groups. -/
theorem parse_inverts_display_of_quoted
    : let pipeline : Pipeline :=
        ⟨[⟨"sparkle", ["#f00", "'a|b, \\'c'"]⟩, ⟨"flip", []⟩],
          .list ["nav:1|null:(2,3)", "", "[ck:10.0.0.1, null:2]"]⟩
      parse " sparkle : #f00 , 'a|b, \\'c' |flip| [nav:1|null:(2,3),, [ck:10.0.0.1, null:2] ]"
          = .ok pipeline
        ∧ pipeline.Printable
        ∧ parse pipeline.display = .ok pipeline := by
  have parsed : parse
      " sparkle : #f00 , 'a|b, \\'c' |flip| [nav:1|null:(2,3),, [ck:10.0.0.1, null:2] ]"
        = .ok ⟨[⟨"sparkle", ["#f00", "'a|b, \\'c'"]⟩, ⟨"flip", []⟩],
          .list ["nav:1|null:(2,3)", "", "[ck:10.0.0.1, null:2]"]⟩ := by
    decide +kernel
  have printable := (parse_inverts_display.2 _ _ parsed).1
  exact ⟨parsed, printable, parse_inverts_display.1 _ printable⟩

end PixelTree.Descriptor
