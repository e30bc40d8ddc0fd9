import Mathlib.Data.List.Forall2
import PixelTree.Descriptor.Pipeline
import PixelTree.Proofs.Descriptor.Pieces

/-! The written form of a descriptor, and that it is read back.
Arguments are separated by commas, members of lists by a comma and a blank, stages by bars.
-/

namespace PixelTree

theorem exists_of_map_eq_ok {α β ε : Type} {result : Except ε α} {f : α → β} {value : β}
    (mapped : result.map f = .ok value)
    : ∃ found, result = .ok found ∧ f found = value := by
  cases result with
  | error error => cases mapped
  | ok found => exact ⟨found, rfl, Except.ok.inj mapped⟩

namespace Descriptor

open Text

-----------------------------------------------------------------------------------------
-- Written forms
-----------------------------------------------------------------------------------------

/-- A name, and its arguments behind a colon if there are any. -/
def Stage.display (stage : Stage) : String :=
  if stage.args = [] then stage.name
  else stage.name ++ ":" ++ ",".intercalate stage.args

/-- A text without blanks at its ends that keeps its commas inside groups and quotes. -/
structure IsToken (delimiter : Char) (s : String) : Prop where
  trimmed : trimChars s.toList = s.toList
  whole : Whole delimiter s.toList

/-- A stage whose written form has its name and its arguments as parts. A single empty argument
is left out, for it is not told from no text at all.
-/
structure Stage.WellFormed (stage : Stage) : Prop where
  named : stage.name ≠ ""
  nameChars : ∀ c ∈ stage.name.toList, isNameChar c = true
  separate : ∀ arg ∈ stage.args, IsToken ',' arg
  unbarred : ∀ arg ∈ stage.args, Whole '|' arg.toList
  notBlank : stage.args ≠ [""]

-----------------------------------------------------------------------------------------
-- Separated tokens
-----------------------------------------------------------------------------------------

/-- Whole texts with a separator between them, which is the delimiter with blanks behind it, are
cut apart at the separators only, by induction over the texts.
-/
theorem tokens_intercalate {delimiter : Char} {pad : List Char} {items : List (List Char)}
    (plain : Nesting.isStructural delimiter = false)
    (blank : ∀ c ∈ pad, isBlank c = true ∧ c ≠ delimiter) (nonempty : items ≠ [])
    (whole : ∀ item ∈ items, Whole delimiter item)
    : tokens delimiter ((delimiter :: pad).intercalate items) = .ok (items.map trimChars) := by
  induction items with
  | nil => exact absurd rfl nonempty
  | cons item rest ih =>
      have head := whole item List.mem_cons_self
      cases rest with
      | nil => rw [List.intercalate_singleton, head.tokens_eq, List.map_singleton]
      | cons next others =>
          have tail := ih (by simp) (fun i member => whole i (List.mem_cons_of_mem _ member))
          rw [List.intercalate_cons_cons, List.append_assoc, List.cons_append,
            head.tokens_append plain, tokens_append_left blank, tail]
          rfl

/-- A separated text is blank only if a single blank one is all there is. -/
theorem not_isAllBlank_intercalate {delimiter : Char} {pad : List Char}
    {items : List (List Char)} (visible : isBlank delimiter = false) (nonempty : items ≠ [])
    (single : ∀ item, items = [item] → isAllBlank item = false)
    : isAllBlank ((delimiter :: pad).intercalate items) = false := by
  match items with
  | [item] =>
      rw [List.intercalate_singleton]
      exact single item rfl
  | item :: next :: others =>
      rw [List.intercalate_cons_cons, isAllBlank, List.all_eq_false]
      exact ⟨delimiter, by simp, by simp [visible]⟩

/-- Splitting a separated text finds its parts without the blanks at their ends. -/
theorem splitIn_intercalate {context separator : String} {delimiter : Char}
    {items : List String} (pad : List Char) (sep : separator.toList = delimiter :: pad)
    (plain : Nesting.isStructural delimiter = false) (visible : isBlank delimiter = false)
    (blank : ∀ c ∈ pad, isBlank c = true ∧ c ≠ delimiter) (nonempty : items ≠ [])
    (single : ∀ item, items = [item] → isAllBlank item.toList = false)
    (whole : ∀ item ∈ items, Whole delimiter item.toList)
    : splitIn context delimiter (separator.intercalate items) = .ok (items.map trim) := by
  have charsSingle : ∀ item, items.map String.toList = [item] → isAllBlank item = false := by
    intro item only
    obtain ⟨text, rfl, rfl⟩ := List.map_eq_singleton_iff.mp only
    exact single text rfl
  have found : splitChars delimiter (separator.intercalate items).toList
      = .ok ((items.map String.toList).map trimChars) := by
    rw [String.toList_intercalate, sep, splitChars_eq_tokens
      (not_isAllBlank_intercalate visible (by simpa using nonempty) charsSingle),
      tokens_intercalate plain blank (by simpa using nonempty)
        (List.forall_mem_map.mpr whole)]
    rfl
  rw [splitIn, split, found]
  simp [Except.map, Except.mapError, Function.comp_def, trim]

/-- The members of a list are read back from the text with commas and blanks between them. -/
theorem parseList_commaBlank {context : String} {items : List String} (nonempty : items ≠ [])
    (single : ∀ item, items = [item] → isAllBlank item.toList = false)
    (whole : ∀ item ∈ items, Whole ',' item.toList)
    : parseList context (", ".intercalate items) = .ok (items.map trim) :=
  splitIn_intercalate [' '] rfl (by decide) (by decide)
    (List.forall_mem_singleton.mpr (by decide)) nonempty single whole

/-- The arguments of a stage are read back from the text with commas between them. -/
theorem parseList_comma {context : String} {args : List String} (nonempty : args ≠ [])
    (single : ∀ arg, args = [arg] → isAllBlank arg.toList = false)
    (whole : ∀ arg ∈ args, Whole ',' arg.toList)
    : parseList context (",".intercalate args) = .ok (args.map trim) :=
  splitIn_intercalate [] rfl (by decide) (by decide) (by simp) nonempty single whole

/-- Texts with commas between them are read back exactly if there is something to read. -/
theorem parseList_comma_eq_ok (context : String) {texts found : List String}
    (whole : ∀ text ∈ texts, Whole ',' text.toList)
    : parseList context (",".intercalate texts) = .ok found
      ↔ texts ≠ []
        ∧ (∀ text, texts = [text] → isAllBlank text.toList = false)
        ∧ found = texts.map trim := by
  constructor
  · intro parsed
    have visible : isAllBlank (",".intercalate texts).toList = false := by
      cases blank : isAllBlank (",".intercalate texts).toList with
      | false => rfl
      | true =>
          rw [parseList, splitIn, split, splitChars, if_pos blank] at parsed
          cases parsed
    have nonempty : texts ≠ [] := by
      rintro rfl
      cases visible
    have single : ∀ text, texts = [text] → isAllBlank text.toList = false := by
      rintro text rfl
      rwa [String.intercalate_singleton] at visible
    rw [parseList_comma nonempty single whole] at parsed
    exact ⟨nonempty, single, (Except.ok.inj parsed).symm⟩
  · rintro ⟨nonempty, single, rfl⟩
    exact parseList_comma nonempty single whole

theorem IsToken.trim_eq {delimiter : Char} {s : String} (token : IsToken delimiter s)
    : trim s = s := by
  rw [trim, token.trimmed, String.ofList_toList]

theorem map_trim_of_isToken {delimiter : Char} {items : List String}
    (separate : ∀ item ∈ items, IsToken delimiter item)
    : items.map trim = items :=
  (List.map_congr_left (fun item member => (separate item member).trim_eq)).trans
    (List.map_id items)

/-- A single token is not blank if it is not empty. -/
theorem not_isAllBlank_of_isToken {delimiter : Char} {items : List String}
    (separate : ∀ item ∈ items, IsToken delimiter item) (notBlank : items ≠ [""]) (item : String)
    (only : items = [item])
    : isAllBlank item.toList = false := by
  subst only
  rcases eq_nil_or_tidy (separate item List.mem_cons_self).trimmed with empty | tidy
  · rw [String.toList_eq_nil_iff.mp empty] at notBlank
    exact absurd rfl notBlank
  · exact tidy.not_isAllBlank

-----------------------------------------------------------------------------------------
-- Stages
-----------------------------------------------------------------------------------------

/-- A character of a name is neither a blank nor a separator nor a part of a quote or a group. -/
theorem isNameChar_plain {c : Char} (name : isNameChar c = true)
    : isBlank c = false ∧ Nesting.isStructural c = false ∧ c ≠ ':' ∧ c ≠ ',' ∧ c ≠ '|' := by
  have visible : isBlank c = false := by
    simp only [isNameChar, Bool.or_eq_true, beq_iff_eq] at name
    rcases name with (word | rfl) | rfl
    · exact isBlank_eq_false_of_isAlphanum word
    · decide
    · decide
  have others : ['\'', '"', '(', ')', '[', ']', ':', ',', '|'].any isNameChar = false := by
    decide
  have not_mem : c ∉ ['\'', '"', '(', ')', '[', ']', ':', ',', '|'] := by
    intro member
    exact List.any_eq_false.mp others c member name
  simp only [List.mem_cons, List.not_mem_nil, or_false, not_or] at not_mem
  refine ⟨visible, ?_, not_mem.2.2.2.2.2.2.1, not_mem.2.2.2.2.2.2.2.1,
    not_mem.2.2.2.2.2.2.2.2⟩
  simp only [Nesting.isStructural, isQuote, Group.opening?, Group.closing?]
  simp [not_mem]

/-- The characters of a written stage: the name, and behind a colon the separated arguments. -/
theorem Stage.toList_display (stage : Stage)
    : stage.display.toList
      = stage.name.toList
        ++ if stage.args = [] then []
          else ':' :: [','].intercalate (stage.args.map String.toList) := by
  unfold Stage.display
  split
  · simp
  · simp [String.toList_append, String.toList_intercalate]

theorem splitColon_append {name : List Char} (noColon : ∀ c ∈ name, c ≠ ':')
    (rest : List Char)
    : splitColon (name ++ ':' :: rest) = (name, some rest) := by
  have stops : ∀ c ∈ name, (c != ':') = true := by simpa using noColon
  rw [splitColon, List.takeWhile_append_of_pos stops, List.dropWhile_append_of_pos stops]
  simp

theorem splitColon_of_forall {name : List Char} (noColon : ∀ c ∈ name, c ≠ ':')
    : splitColon name = (name, none) := by
  have stops : ∀ c ∈ name, (c != ':') = true := by simpa using noColon
  have front : name.takeWhile (· != ':') = name := List.takeWhile_eq_self_iff.mpr stops
  have back : name.dropWhile (· != ':') = [] := List.dropWhile_eq_nil_iff.mpr stops
  rw [splitColon, front, back]
  rfl

/-- A text has no colon, or a first one. -/
theorem splitColon_cases (cs : List Char)
    : (∀ c ∈ cs, c ≠ ':')
      ∨ ∃ front back, (∀ c ∈ front, c ≠ ':') ∧ cs = front ++ ':' :: back := by
  induction cs with
  | nil => exact Or.inl (by simp)
  | cons c rest ih =>
      by_cases colon : c = ':'
      · exact Or.inr ⟨[], rest, by simp, by rw [colon]; rfl⟩
      · rcases ih with absent | ⟨front, back, noColon, rfl⟩
        · exact Or.inl (List.forall_mem_cons.mpr ⟨colon, absent⟩)
        · exact Or.inr ⟨c :: front, back, List.forall_mem_cons.mpr ⟨colon, noColon⟩, rfl⟩

/-- The tokens of what stands behind a colon; without a colon there are none. -/
def parseArgs (name : String) : Option (List Char) → Except ParseError (List String)
  | none => .ok []
  | some args => parseList name (String.ofList args)

/-- The name is checked, and then the arguments are read. -/
theorem parseStage_eq {text : String} {front : List Char} {args? : Option (List Char)}
    (halves : splitColon text.toList = (front, args?)) (named : trimChars front ≠ [])
    (word : ∀ c ∈ trimChars front, isNameChar c = true)
    : parseStage text
      = (parseArgs (String.ofList (trimChars front)) args?).map
          (Stage.mk (String.ofList (trimChars front))) := by
  have present : (trimChars front).isEmpty = false := by simpa using named
  have allWord : (trimChars front).all isNameChar = true := List.all_eq_true.mpr word
  simp only [parseStage, halves, present, allWord]
  cases args? with
  | none => rfl
  | some args =>
      change (parseList _ _).bind _ = _
      rw [parseArgs]
      cases parseList (String.ofList (trimChars front)) (String.ofList args) <;> rfl

/-- The name of a stage is a word. -/
theorem name_of_parseStage {text : String} {stage : Stage} {front : List Char}
    {args? : Option (List Char)} (halves : splitColon text.toList = (front, args?))
    (parsed : parseStage text = .ok stage)
    : trimChars front ≠ [] ∧ ∀ c ∈ trimChars front, isNameChar c = true := by
  simp only [parseStage, halves] at parsed
  constructor
  · intro empty
    rw [empty] at parsed
    cases parsed
  · by_contra word
    have notAll : (trimChars front).all isNameChar = false := by
      simpa [List.all_eq_false] using word
    rw [notAll] at parsed
    cases named : (trimChars front).isEmpty <;> rw [named] at parsed <;> cases parsed

/-- A text is a stage exactly if its name is a word, and the arguments are the tokens of what
stands behind the colon.
-/
theorem parseStage_eq_ok {text : String} {stage : Stage} {front : List Char}
    {args? : Option (List Char)} (halves : splitColon text.toList = (front, args?))
    : parseStage text = .ok stage
      ↔ trimChars front ≠ []
        ∧ (∀ c ∈ trimChars front, isNameChar c = true)
        ∧ stage.name = String.ofList (trimChars front)
        ∧ parseArgs stage.name args? = .ok stage.args := by
  obtain ⟨name, args⟩ := stage
  constructor
  · intro parsed
    obtain ⟨named, word⟩ := name_of_parseStage halves parsed
    rw [parseStage_eq halves named word] at parsed
    cases read : parseArgs (String.ofList (trimChars front)) args? with
    | error error =>
        rw [read] at parsed
        cases parsed
    | ok found =>
        rw [read] at parsed
        obtain ⟨rfl, rfl⟩ := Stage.mk.inj (Except.ok.inj parsed)
        exact ⟨named, word, rfl, read⟩
  · rintro ⟨named, word, rfl, read⟩
    rw [parseStage_eq halves named word, read]
    rfl

theorem splitIn_trim {context : String} {delimiter : Char} (visible : isBlank delimiter = false)
    (input : String)
    : splitIn context delimiter (trim input) = splitIn context delimiter input := by
  rw [splitIn, split, trim, String.toList_ofList, splitChars_trimChars visible, splitIn, split]

/-- Blanks behind arguments are in none of them. -/
theorem parseArgs_append_right {name : String} {back : List Char}
    (blank : ∀ c ∈ back, isBlank c = true) (args : List Char)
    : parseArgs name (some (args ++ back)) = parseArgs name (some args) := by
  have same (cs : List Char) : parseArgs name (some cs)
      = parseList name (trim (String.ofList cs)) := by
    rw [parseList, splitIn_trim (by decide)]
    rfl
  rw [same, same, trim, trim, String.toList_ofList, String.toList_ofList,
    trimChars_append_right blank]

/-- The blanks at the ends of a stage do not count. -/
theorem parseStage_trim_eq_ok {text : String} {stage : Stage}
    : parseStage (trim text) = .ok stage ↔ parseStage text = .ok stage := by
  obtain ⟨front, back, whole, frontBlank, backBlank⟩ := exists_blank_ends text.toList
  have noColon {cs : List Char} (blank : ∀ c ∈ cs, isBlank c = true) : ∀ c ∈ cs, c ≠ ':' := by
    rintro c member rfl
    exact absurd (blank ':' member) (by decide)
  have trimmed : (trim text).toList = trimChars text.toList := by
    rw [trim, String.toList_ofList]
  rcases splitColon_cases (trimChars text.toList) with absent | ⟨name, args, nameNoColon, colon⟩
  · have halves : splitColon text.toList = (text.toList, none) := by
      refine splitColon_of_forall ?_
      rw [whole]
      simp only [List.forall_mem_append]
      exact ⟨noColon frontBlank, absent, noColon backBlank⟩
    rw [parseStage_eq_ok halves,
      parseStage_eq_ok (by rw [trimmed, splitColon_of_forall absent]), trimChars_trimChars]
  · have halves : splitColon text.toList = (front ++ name, some (args ++ back)) := by
      conv => lhs; rw [whole, colon, List.append_assoc, List.cons_append, ← List.append_assoc]
      refine splitColon_append ?_ _
      exact List.forall_mem_append.mpr ⟨noColon frontBlank, nameNoColon⟩
    rw [parseStage_eq_ok halves, trimChars_append_left frontBlank,
      parseArgs_append_right backBlank,
      parseStage_eq_ok (by rw [trimmed, colon, splitColon_append nameNoColon])]

namespace Stage.WellFormed

variable {stage : Stage}

theorem name_ne_nil (formed : stage.WellFormed) : stage.name.toList ≠ [] := by
  simpa only [ne_eq, String.toList_eq_nil_iff] using formed.named

/-- A name is tidy, for it has no blanks at all. -/
theorem tidy_name (formed : stage.WellFormed) : Tidy stage.name.toList :=
  Tidy.of_forall formed.name_ne_nil
    (fun c member => (isNameChar_plain (formed.nameChars c member)).1)

/-- A stage is read back from its written form. -/
theorem parseStage_display (formed : stage.WellFormed)
    : parseStage stage.display = .ok stage := by
  have noColon : ∀ c ∈ stage.name.toList, c ≠ ':' := fun c member =>
    (isNameChar_plain (formed.nameChars c member)).2.2.1
  have trimmed := formed.tidy_name.trimChars_eq
  by_cases bare : stage.args = []
  · have halves : splitColon stage.display.toList = (stage.name.toList, none) := by
      rw [toList_display, if_pos bare, List.append_nil, splitColon_of_forall noColon]
    rw [parseStage_eq_ok halves, trimmed, bare]
    exact ⟨formed.name_ne_nil, formed.nameChars, String.ofList_toList.symm, rfl⟩
  · have halves : splitColon stage.display.toList
        = (stage.name.toList, some ([','].intercalate (stage.args.map String.toList))) := by
      rw [toList_display, if_neg bare, splitColon_append noColon]
    have args : String.ofList ([','].intercalate (stage.args.map String.toList))
        = ",".intercalate stage.args := by
      rw [← String.toList_inj, String.toList_ofList, String.toList_intercalate]
      rfl
    have read : parseList stage.name (",".intercalate stage.args) = .ok stage.args := by
      rw [parseList_comma bare (not_isAllBlank_of_isToken formed.separate formed.notBlank)
        (fun arg member => (formed.separate arg member).whole),
        map_trim_of_isToken formed.separate]
    rw [parseStage_eq_ok halves, trimmed, parseArgs, args]
    exact ⟨formed.name_ne_nil, formed.nameChars, String.ofList_toList.symm, read⟩

/-- A written stage is whole for the bar between stages. -/
theorem whole_display (formed : stage.WellFormed) : Whole '|' stage.display.toList := by
  have name : Whole '|' stage.name.toList :=
    .of_forall (fun c member =>
      have plain := isNameChar_plain (formed.nameChars c member)
      ⟨plain.2.1, plain.2.2.2.2⟩)
  rw [toList_display]
  split
  · simpa using name
  · have colon : Whole '|' [':'] := .singleton (by decide) (by decide)
    have comma : Whole '|' [','] := .singleton (by decide) (by decide)
    exact name.append
      (colon.append (comma.intercalate (List.forall_mem_map.mpr formed.unbarred)))

/-- Separated tokens end in something visible, unless they end in an empty token. -/
theorem getLast?_intercalate {items : List String} (nonempty : items ≠ [])
    (trimmed : ∀ item ∈ items, trimChars item.toList = item.toList)
    : items = [""]
      ∨ ∃ c,
        ([','].intercalate (items.map String.toList)).getLast? = some c
        ∧ isBlank c = false := by
  induction items with
  | nil => exact absurd rfl nonempty
  | cons item rest ih =>
      cases rest with
      | nil =>
          rcases eq_nil_or_tidy (trimmed item List.mem_cons_self) with empty | tidy
          · exact Or.inl (by rw [String.toList_eq_nil_iff.mp empty])
          · exact Or.inr (by simpa using tidy.last)
      | cons next others =>
          right
          have tail := ih (by simp) (fun i member => trimmed i (List.mem_cons_of_mem _ member))
          rw [List.map_cons, List.map_cons, List.intercalate_cons_cons, ← List.map_cons]
          rcases tail with single | ⟨c, last, visible⟩
          · refine ⟨',', ?_, by decide⟩
            rw [single]
            simp
          · refine ⟨c, ?_, visible⟩
            rw [List.getLast?_append, last]
            rfl

/-- A written stage with at most one argument keeps its commas inside groups. -/
theorem whole_comma (formed : stage.WellFormed) (single : stage.args.length ≤ 1)
    : Whole ',' stage.display.toList := by
  have name : Whole ',' stage.name.toList :=
    .of_forall (fun c member =>
      have plain := isNameChar_plain (formed.nameChars c member)
      ⟨plain.2.1, plain.2.2.2.1⟩)
  rw [toList_display]
  split
  · simpa using name
  · next some =>
      obtain ⟨arg, rest, args⟩ := List.exists_cons_of_ne_nil some
      obtain rfl : rest = [] := by
        rw [args, List.length_cons] at single
        exact List.length_eq_zero_iff.mp (by omega)
      have only := (formed.separate arg (by simp [args])).whole
      rw [args, List.map_singleton, List.intercalate_singleton]
      exact name.append ((Whole.singleton (c := ':') (by decide) (by decide)).append only)

/-- A written stage is tidy. -/
theorem tidy_display (formed : stage.WellFormed) : Tidy stage.display.toList := by
  rw [toList_display]
  split
  · simpa using formed.tidy_name
  · next args =>
      rcases getLast?_intercalate args (fun arg member => (formed.separate arg member).trimmed) with
        single | ⟨c, last, visible⟩
      · exact absurd single formed.notBlank
      · constructor
        · obtain ⟨d, head, headVisible⟩ := formed.tidy_name.first
          exact ⟨d, by rw [List.head?_append, head]; rfl, headVisible⟩
        · refine ⟨c, ?_, visible⟩
          rw [List.getLast?_append, List.getLast?_cons, last]
          rfl

end Stage.WellFormed

-----------------------------------------------------------------------------------------
-- Chains
-----------------------------------------------------------------------------------------

/-- The tokens of a text that is not blank are what splitting finds. -/
theorem splitIn_eq_ok {context input : String} {delimiter : Char} {found : List String}
    (visible : isAllBlank input.toList = false)
    : splitIn context delimiter input = .ok found
      ↔ ∃ pieces,
          tokens delimiter input.toList = .ok pieces ∧ found = pieces.map String.ofList := by
  rw [splitIn, split, splitChars_eq_tokens visible]
  cases tokens delimiter input.toList with
  | error fault => simp [Except.map, Except.mapError]
  | ok pieces => simp [Except.map, Except.mapError, eq_comm]

/-- What splitting finds are the trimmed pieces of a text that is not blank. -/
theorem exists_pieces_of_splitIn {context input : String} {delimiter : Char}
    {found : List String} (split : splitIn context delimiter input = .ok found)
    : ∃ piece pieces,
        isAllBlank input.toList = false
        ∧ cut delimiter .top input.toList = .ok (piece, pieces)
        ∧ found = (piece :: pieces).map (fun p => String.ofList (trimChars p)) := by
  cases visible : isAllBlank input.toList with
  | true =>
      rw [splitIn, Descriptor.split, splitChars, if_pos visible] at split
      cases split
  | false =>
      obtain ⟨tokens, cuts, rfl⟩ := (splitIn_eq_ok visible).mp split
      cases parts : cut delimiter .top input.toList with
      | error fault =>
          rw [Descriptor.tokens, parts] at cuts
          cases cuts
      | ok result =>
          rw [Descriptor.tokens, parts] at cuts
          obtain rfl := Except.ok.inj cuts
          exact ⟨result.1, result.2, rfl, rfl, by simp⟩

/-- A text is never split into no tokens at all. -/
theorem ne_nil_of_splitIn {context input : String} {delimiter : Char}
    {tokens : List String} (found : splitIn context delimiter input = .ok tokens)
    : tokens ≠ [] := by
  obtain ⟨piece, pieces, _, _, rfl⟩ := exists_pieces_of_splitIn found
  simp

/-- A descriptor is a pipeline exactly if its segments but the last are stages and the last one
is a leaf.
-/
theorem parse_eq_ok {descriptor : String} {pipeline : Pipeline}
    : parse descriptor = .ok pipeline
      ↔ ∃ segments,
          splitIn "descriptor" '|' descriptor = .ok segments
          ∧ segments.dropLast.mapM (parseFilter descriptor) = .ok pipeline.filters
          ∧ segments.getLast?.getD "" ≠ ""
          ∧ parseLeaf (segments.getLast?.getD "") = .ok pipeline.leaf := by
  obtain ⟨filters, leaf⟩ := pipeline
  unfold parse
  cases splitIn "descriptor" '|' descriptor with
  | error error => simp [bind, Except.bind]
  | ok segments =>
      simp only [bind, Except.bind, pure, Except.pure, throw, throwThe, MonadExceptOf.throw,
        Except.ok.injEq, exists_eq_left']
      cases segments.dropLast.mapM (parseFilter descriptor) with
      | error error => simp
      | ok stages =>
          by_cases missing : segments.getLast?.getD "" = ""
          · simp [missing]
          · cases parseLeaf (segments.getLast?.getD "") with
            | error error => simp [missing]
            | ok found => simp [missing]

theorem parseFilter_eq_ok {descriptor segment : String} {stage : Stage}
    : parseFilter descriptor segment = .ok stage
      ↔ segment ≠ "" ∧ parseStage segment = .ok stage := by
  unfold parseFilter
  split
  · next empty => simp [empty, throw, throwThe, MonadExceptOf.throw]
  · next present => simp [present]

/-- A row of readings succeeds exactly if each of them does, by induction over the row. -/
theorem mapM_eq_ok {α β ε : Type} {f : α → Except ε β} {items : List α} {results : List β}
    : items.mapM f = .ok results ↔ List.Forall₂ (fun a b => f a = .ok b) items results := by
  induction items generalizing results with
  | nil => simp [pure, Except.pure, eq_comm]
  | cons item rest ih =>
      rw [List.mapM_cons]
      cases head : f item with
      | error error => simp [bind, Except.bind, List.forall₂_cons_left_iff, head]
      | ok first =>
          cases tail : rest.mapM f with
          | error error =>
              simp only [bind, Except.bind, reduceCtorEq, false_iff,
                List.forall₂_cons_left_iff, not_exists, not_and]
              rintro _ others _ each
              rw [ih.mpr each] at tail
              cases tail
          | ok others =>
              simp only [bind, Except.bind, pure, Except.pure, Except.ok.injEq,
                List.forall₂_cons_left_iff, head]
              constructor
              · rintro rfl
                exact ⟨first, others, rfl, ih.mp tail, rfl⟩
              · rintro ⟨_, others', rfl, each, rfl⟩
                rw [ih.mpr each] at tail
                rw [Except.ok.inj tail]

/-- Every result of a row of readings was read, by induction over the row. -/
theorem exists_of_mem_mapM {α β ε : Type} {f : α → Except ε β} {items : List α}
    {results : List β} (read : items.mapM f = .ok results)
    : ∀ result ∈ results, ∃ item ∈ items, f item = .ok result := by
  have each := mapM_eq_ok.mp read
  clear read
  induction each with
  | nil => simp
  | @cons item first rest others head _ ih =>
      rw [List.forall_mem_cons]
      refine ⟨⟨item, List.mem_cons_self, head⟩, ?_⟩
      intro result member
      obtain ⟨other, found, same⟩ := ih result member
      exact ⟨other, List.mem_cons_of_mem _ found, same⟩

theorem mapM_parseFilter_congr (descriptor descriptor' : String) {segments : List String}
    {stages : List Stage}
    : segments.mapM (parseFilter descriptor) = .ok stages
      ↔ segments.mapM (parseFilter descriptor') = .ok stages := by
  simp only [mapM_eq_ok, parseFilter_eq_ok]

/-- A blank text is no descriptor. -/
theorem not_isAllBlank_of_parse {descriptor : String} {pipeline : Pipeline}
    (parsed : parse descriptor = .ok pipeline)
    : isAllBlank descriptor.toList = false := by
  obtain ⟨segments, found, _⟩ := parse_eq_ok.mp parsed
  obtain ⟨_, _, visible, _⟩ := exists_pieces_of_splitIn found
  exact visible

/-- The blanks at the ends of a descriptor do not count. -/
theorem parse_trim_eq_ok {descriptor : String} {pipeline : Pipeline}
    : parse (trim descriptor) = .ok pipeline ↔ parse descriptor = .ok pipeline := by
  have visible : isBlank '|' = false := by decide
  simp only [parse_eq_ok, splitIn_trim visible,
    mapM_parseFilter_congr (trim descriptor) descriptor]

/-- A text behind a bar is split as it is alone, and what stands in front of the bar is put in
front.
-/
theorem splitIn_cons {front : String} (whole : Whole '|' front.toList) {context text : String}
    (visible : isAllBlank text.toList = false) {segments : List String}
    : splitIn context '|' (front ++ "|" ++ text) = .ok segments
      ↔ ∃ rest, splitIn context '|' text = .ok rest ∧ segments = trim front :: rest := by
  have chars : (front ++ "|" ++ text).toList = front.toList ++ '|' :: text.toList := by
    simp [String.toList_append]
  have barVisible : isAllBlank (front ++ "|" ++ text).toList = false := by
    rw [chars, isAllBlank, List.all_eq_false]
    exact ⟨'|', by simp, by decide⟩
  rw [splitIn_eq_ok barVisible, chars, whole.tokens_append (by decide)]
  simp only [splitIn_eq_ok visible]
  cases tokens '|' text.toList with
  | error fault => simp [Except.map]
  | ok pieces => simp [Except.map, trim]

/-- A blank text behind the last bar is no leaf. -/
theorem not_isAllBlank_of_parse_cons {front descriptor : String}
    (whole : Whole '|' front.toList) {pipeline : Pipeline}
    (parsed : parse (front ++ "|" ++ descriptor) = .ok pipeline)
    : isAllBlank descriptor.toList = false := by
  cases visible : isAllBlank descriptor.toList with
  | false => rfl
  | true =>
      obtain ⟨segments, split, _, last, _⟩ := parse_eq_ok.mp parsed
      have blank : ∀ c ∈ descriptor.toList, isBlank c = true := List.all_eq_true.mp visible
      have alone : Whole '|' descriptor.toList := by
        refine .of_forall (fun c member => ⟨Nesting.isStructural_of_isBlank (blank c member), ?_⟩)
        rintro rfl
        exact absurd (blank '|' member) (by decide)
      have empty : trimChars descriptor.toList = [] := trimChars_append_right blank []
      have barVisible : isAllBlank (front ++ "|" ++ descriptor).toList = false := by
        rw [isAllBlank, List.all_eq_false]
        exact ⟨'|', by simp, by decide⟩
      obtain ⟨pieces, cuts, rfl⟩ := (splitIn_eq_ok barVisible).mp split
      rw [String.toList_append, String.toList_append, List.append_assoc] at cuts
      change tokens '|' (front.toList ++ '|' :: descriptor.toList) = _ at cuts
      rw [whole.tokens_append (by decide), alone.tokens_eq, empty] at cuts
      obtain rfl := Except.ok.inj cuts
      exact absurd rfl last

/-- A text in front of a bar is read as a stage, and the text behind the bar as it is read alone. -/
theorem parse_cons_eq_ok {front descriptor : String} (whole : Whole '|' front.toList)
    {pipeline : Pipeline}
    : parse (front ++ "|" ++ descriptor) = .ok pipeline
      ↔ ∃ stage rest,
          parseStage front = .ok stage
          ∧ parse descriptor = .ok rest
          ∧ pipeline = ⟨stage :: rest.filters, rest.leaf⟩ := by
  have first (context : String) (stage : Stage)
      : parseFilter context (trim front) = .ok stage ↔ parseStage front = .ok stage := by
    rw [parseFilter_eq_ok, parseStage_trim_eq_ok]
    refine and_iff_right_of_imp ?_
    intro read empty
    have readTrimmed := parseStage_trim_eq_ok.mpr read
    rw [empty] at readTrimmed
    cases readTrimmed
  constructor
  · intro parsed
    have visible := not_isAllBlank_of_parse_cons whole parsed
    obtain ⟨_, found, filters, last, leaf⟩ := parse_eq_ok.mp parsed
    obtain ⟨segments, split, rfl⟩ := (splitIn_cons whole visible).mp found
    have nonempty := ne_nil_of_splitIn split
    rw [List.dropLast_cons_of_ne_nil nonempty, mapM_eq_ok, List.forall₂_cons_left_iff]
      at filters
    obtain ⟨stage, rest, head, tail, same⟩ := filters
    rw [List.getLast?_cons_of_ne_nil nonempty] at last leaf
    refine ⟨stage, ⟨rest, pipeline.leaf⟩, (first _ stage).mp head, ?_, ?_⟩
    · exact parse_eq_ok.mpr
        ⟨segments, split, (mapM_parseFilter_congr _ _).mp (mapM_eq_ok.mpr tail), last, leaf⟩
    · rw [← same]
  · rintro ⟨stage, rest, read, parsed, rfl⟩
    have visible := not_isAllBlank_of_parse parsed
    obtain ⟨segments, split, filters, last, leaf⟩ := parse_eq_ok.mp parsed
    have nonempty := ne_nil_of_splitIn split
    refine parse_eq_ok.mpr
      ⟨_, (splitIn_cons whole visible).mpr ⟨segments, split, rfl⟩, ?_, ?_, ?_⟩
    · rw [List.dropLast_cons_of_ne_nil nonempty, mapM_eq_ok]
      exact .cons ((first _ stage).mpr read)
        (mapM_eq_ok.mp ((mapM_parseFilter_congr _ _).mp filters))
    · rwa [List.getLast?_cons_of_ne_nil nonempty]
    · rwa [List.getLast?_cons_of_ne_nil nonempty]

/-- A tidy text that no bar cuts is a leaf without filters. -/
theorem parse_of_whole {text : String} (tidy : Tidy text.toList) (whole : Whole '|' text.toList)
    : parse text = (parseLeaf text).map (Pipeline.mk []) := by
  have present : text ≠ "" := by
    intro empty
    exact tidy.ne_nil (String.toList_eq_nil_iff.mpr empty)
  have split : splitIn "descriptor" '|' text = .ok [text] :=
    (splitIn_eq_ok tidy.not_isAllBlank).mpr ⟨_, whole.tokens_eq, by simp [tidy.trimChars_eq]⟩
  rw [parse, split]
  change (if text = "" then _ else (parseLeaf text).map (Pipeline.mk [])) = _
  rw [if_neg present]

/-- A text that does not start with a bracket is a device. -/
theorem parseLeaf_of_head? {text : String} (device : text.toList.head? ≠ some '[')
    : parseLeaf text = Leaf.device <$> parseStage text := by
  unfold parseLeaf
  split
  · next rest chars =>
      rw [chars] at device
      exact absurd rfl device
  · rfl

/-- A written stage does not start with a bracket, for no name does. -/
theorem Stage.WellFormed.head?_display {stage : Stage} (formed : stage.WellFormed)
    : stage.display.toList.head? ≠ some '[' := by
  obtain ⟨c, others, name⟩ := List.exists_cons_of_ne_nil formed.name_ne_nil
  rw [Stage.toList_display, name, List.cons_append, List.head?_cons, ne_eq, Option.some.injEq]
  rintro rfl
  have nameChar := formed.nameChars '[' (by rw [name]; exact List.mem_cons_self)
  exact absurd nameChar (by decide)

theorem parseLeaf_device {stage : Stage} (formed : stage.WellFormed)
    : parseLeaf stage.display = .ok (.device stage) := by
  rw [parseLeaf_of_head? formed.head?_display, formed.parseStage_display]
  rfl

theorem parseLeaf_list (inside : String)
    : parseLeaf ("[" ++ inside ++ "]") = Leaf.list <$> parseList "device list" inside := by
  have chars : ("[" ++ inside ++ "]").toList = '[' :: (inside.toList ++ [']']) := by
    simp [String.toList_append]
  simp only [parseLeaf, chars, bracketed?, List.getLast?_concat, List.dropLast_concat,
    if_true, String.ofList_toList]

/-- A balanced text between brackets is one group. -/
theorem Balanced.whole_brackets {inside : String} (balanced : Balanced inside.toList)
    (delimiter : Char)
    : Whole delimiter ("[" ++ inside ++ "]").toList := by
  rw [String.toList_append, String.toList_append]
  exact balanced.whole_group rfl rfl delimiter

/-- The text between the brackets of a list is one group. -/
theorem whole_brackets {items : List String} (balanced : ∀ item ∈ items, Balanced item.toList)
    (delimiter : Char)
    : Whole delimiter ("[" ++ ", ".intercalate items ++ "]").toList := by
  have separator : Balanced [',', ' '] := rfl
  refine Balanced.whole_brackets ?_ delimiter
  rw [String.toList_intercalate]
  exact separator.intercalate (List.forall_mem_map.mpr balanced)

theorem tidy_brackets (inside : String) : Tidy ("[" ++ inside ++ "]").toList := by
  have left : Tidy ['['] := .singleton (by decide)
  have right : Tidy [']'] := .singleton (by decide)
  rw [String.toList_append, String.toList_append, List.append_assoc]
  exact left.append _ right

end Descriptor

end PixelTree
