import PixelTree.Proofs.Descriptor.Grammar
import PixelTree.Text.Letters

/-! Spellings of a descriptor that differ in the case of letters in the names of types.
A name stands at the start of a stage. Stages stand in front of bars, where a descriptor or a member
of a list ends, and nowhere else; what looks like a name in an argument is none.
-/

namespace PixelTree.Descriptor

open Text

/-- Two spellings of one stage: a name between blanks in letters of any case, and the same text
behind it, which is empty or starts with the colon of the arguments.
-/
inductive RespelledStage (text text' : String) : Prop where
  | name {before name name' after args : List Char}
    (chars : text.toList = before ++ (name ++ after) ++ args)
    (chars' : text'.toList = before ++ (name' ++ after) ++ args)
    (beforeBlank : ∀ c ∈ before, isBlank c = true) (afterBlank : ∀ c ∈ after, isBlank c = true)
    (named : name ≠ []) (word : ∀ c ∈ name, isNameChar c = true)
    (letters : name.map Char.toLower = name'.map Char.toLower)
    (colon : ∀ c ∈ args.head?, c = ':')

/-- Two spellings of one descriptor: of a device, of a stage in front of a bar and the text behind
it, or of the members of a list with commas between them.
-/
inductive Respelled : String → String → Prop where
  | device {text text' : String} (stage : RespelledStage text text')
    (nested : Nested ['|'] text.toList)
    : Respelled text text'
  | filter {front front' rest rest' : String} (stage : RespelledStage front front')
    (nested : Nested ['|'] front.toList) (behind : Respelled rest rest')
    : Respelled (front ++ "|" ++ rest) (front' ++ "|" ++ rest')
  | list {left right : String} {items : List (String × String)}
    (leftBlank : isAllBlank left.toList = true) (rightBlank : isAllBlank right.toList = true)
    (nested : ∀ item ∈ items, Nested [','] item.1.toList)
    (each : ∀ item ∈ items, Respelled item.1 item.2)
    : Respelled (left ++ ("[" ++ ",".intercalate (items.map Prod.fst) ++ "]") ++ right)
        (left ++ ("[" ++ ",".intercalate (items.map Prod.snd) ++ "]") ++ right)

/-- Two readings of a stage that are the same up to the case of letters in the name. -/
structure Stage.Alike (stage stage' : Stage) : Prop where
  name : foldCase stage.name = foldCase stage'.name
  args : stage.args = stage'.args

-----------------------------------------------------------------------------------------
-- Names
-----------------------------------------------------------------------------------------

/-- The case of a letter does not count for what a name may be made of. -/
theorem isNameChar_toLower (c : Char) : isNameChar c.toLower = isNameChar c := by
  by_cases upper : c.isUpper = true
  · have letter := c.isAlpha_toLower_eq_isAlpha
    have capital : c.isAlpha = true := by simp [Char.isAlpha, upper]
    simp [isNameChar, Char.isAlphanum, letter, capital]
  · rw [Char.toLower_eq_of_not_isUpper upper]

theorem forall_isNameChar {name name' : List Char} (word : ∀ c ∈ name, isNameChar c = true)
    (letters : name.map Char.toLower = name'.map Char.toLower)
    : ∀ c ∈ name', isNameChar c = true := by
  intro c member
  have small : c.toLower ∈ name.map Char.toLower := by
    rw [letters]
    exact List.mem_map_of_mem member
  obtain ⟨d, found, same⟩ := List.mem_map.mp small
  rw [← isNameChar_toLower, ← same, isNameChar_toLower]
  exact word d found

/-- Letters of a name neither open nor close anything, and no delimiter is one. -/
theorem whole_of_word {delimiter : Char} (other : isNameChar delimiter = false)
    {name : List Char} (word : ∀ c ∈ name, isNameChar c = true)
    : Whole delimiter name := by
  refine .of_forall (fun c member => ⟨(isNameChar_plain (word c member)).2.1, ?_⟩)
  rintro rfl
  rw [word c member] at other
  cases other

theorem balanced_of_blank {cs : List Char} (blank : ∀ c ∈ cs, isBlank c = true) : Balanced cs :=
  .of_forall (fun c member => Nesting.isStructural_of_isBlank (blank c member))

/-- The name of a stage, and what stands behind the colon if there is one. -/
theorem splitColon_append_args {front args : List Char} (noColon : ∀ c ∈ front, c ≠ ':')
    (colon : ∀ c ∈ args.head?, c = ':')
    : splitColon (front ++ args) = (front, args.tail?) := by
  cases args with
  | nil => rw [List.append_nil, splitColon_of_forall noColon]; rfl
  | cons c rest =>
      obtain rfl := colon c rfl
      exact splitColon_append noColon rest

/-- Of the name of a list of arguments only the faults know. -/
theorem parseArgs_congr (name name' : String) {args? : Option (List Char)} {args : List String}
    : parseArgs name args? = .ok args ↔ parseArgs name' args? = .ok args := by
  cases args? with
  | none => rfl
  | some text =>
      simp only [parseArgs, parseList, splitIn]
      cases split ',' (String.ofList text) with
      | error fault => simp [Except.mapError]
      | ok found => simp [Except.mapError]

namespace RespelledStage

variable {text text' : String}

/-- The parts of a stage are read from the text in front of its colon and the text behind it. -/
theorem halves {before name after args : List Char} {text : String}
    (chars : text.toList = before ++ (name ++ after) ++ args)
    (beforeBlank : ∀ c ∈ before, isBlank c = true) (afterBlank : ∀ c ∈ after, isBlank c = true)
    (word : ∀ c ∈ name, isNameChar c = true) (colon : ∀ c ∈ args.head?, c = ':')
    : splitColon text.toList = (before ++ (name ++ after), args.tail?)
      ∧ trimChars (before ++ (name ++ after)) = name := by
  have noColon {cs : List Char} (blank : ∀ c ∈ cs, isBlank c = true) : ∀ c ∈ cs, c ≠ ':' := by
    rintro c member rfl
    exact absurd (blank ':' member) (by decide)
  constructor
  · rw [chars]
    refine splitColon_append_args ?_ colon
    simp only [List.forall_mem_append]
    exact ⟨noColon beforeBlank, fun c member => (isNameChar_plain (word c member)).2.2.1,
      noColon afterBlank⟩
  · rw [trimChars_append_left beforeBlank, trimChars_append_right afterBlank]
    by_cases named : name = []
    · rw [named]; rfl
    · exact (Tidy.of_forall named
        (fun c member => (isNameChar_plain (word c member)).1)).trimChars_eq

/-- Stages are read alike whatever the case of letters in their names. -/
theorem exists_alike (respelled : RespelledStage text text') {stage : Stage}
    (read : parseStage text = .ok stage)
    : ∃ stage', parseStage text' = .ok stage' ∧ stage.Alike stage' := by
  cases respelled with
  | @name before name name' after args chars chars' beforeBlank afterBlank named word letters
      colon =>
      have word' := forall_isNameChar word letters
      obtain ⟨split, trimmed⟩ := halves chars beforeBlank afterBlank word colon
      obtain ⟨split', trimmed'⟩ := halves chars' beforeBlank afterBlank word' colon
      rw [parseStage_eq_ok split, trimmed] at read
      obtain ⟨_, _, same, args⟩ := read
      have named' : name' ≠ [] := by
        rintro rfl
        exact named (List.map_eq_nil_iff.mp letters)
      refine ⟨⟨String.ofList name', stage.args⟩, ?_, ?_, rfl⟩
      · rw [parseStage_eq_ok split', trimmed']
        exact ⟨named', word', rfl, (parseArgs_congr _ _).mp args⟩
      · simp only [foldCase, same, String.toList_ofList, letters]

theorem symm (respelled : RespelledStage text text') : RespelledStage text' text := by
  cases respelled with
  | @name before name name' after args chars chars' beforeBlank afterBlank named word letters
      colon =>
      have named' : name' ≠ [] := by
        rintro rfl
        exact named (List.map_eq_nil_iff.mp letters)
      exact .name chars' chars beforeBlank afterBlank named' (forall_isNameChar word letters)
        letters.symm colon

/-- A stage starts with its name, and so with no bracket. -/
theorem head?_ne (respelled : RespelledStage text text')
    : (trimChars text.toList).head? ≠ some '[' := by
  cases respelled with
  | @name before name name' after args chars _ beforeBlank _ named word _ _ =>
      obtain ⟨c, rest, rfl⟩ := List.exists_cons_of_ne_nil named
      have letter := word c List.mem_cons_self
      rw [chars, List.append_assoc, trimChars_append_left beforeBlank, List.cons_append,
        List.cons_append, head?_trimChars_cons (isNameChar_plain letter).1, ne_eq,
        Option.some.injEq]
      rintro rfl
      exact absurd letter (by decide)

/-- A text that is read as a stage is a spelling of itself. -/
theorem of_parseStage {stage : Stage} (read : parseStage text = .ok stage)
    : RespelledStage text text := by
  have split (front args : List Char) (chars : text.toList = front ++ args)
      (halves : splitColon text.toList = (front, args.tail?)) (colon : ∀ c ∈ args.head?, c = ':')
      : RespelledStage text text := by
    obtain ⟨named, word, _⟩ := (parseStage_eq_ok halves).mp read
    obtain ⟨before, after, ends, beforeBlank, afterBlank⟩ := exists_blank_ends front
    rw [ends] at chars
    exact .name chars chars beforeBlank afterBlank named word rfl colon
  rcases splitColon_cases text.toList with absent | ⟨front, back, noColon, chars⟩
  · exact split _ [] (List.append_nil _).symm (splitColon_of_forall absent) nofun
  · refine split _ (':' :: back) chars (by rw [chars, splitColon_append noColon]; rfl) ?_
    rintro _ ⟨⟩
    rfl

theorem whole (respelled : RespelledStage text text') {delimiter : Char}
    (other : isNameChar delimiter = false) (whole : Whole delimiter text.toList)
    : Whole delimiter text'.toList := by
  cases respelled with
  | @name before name name' after args chars chars' beforeBlank afterBlank _ word letters colon =>
      have name' := whole_of_word other (forall_isNameChar word letters)
      rw [chars] at whole
      have front : Balanced (before ++ (name ++ after)) :=
        (balanced_of_blank beforeBlank).append
          ((whole_of_word other word).balanced.append (balanced_of_blank afterBlank))
      obtain ⟨front, args⟩ := Whole.parts front whole
      obtain ⟨before, behind⟩ := Whole.parts (balanced_of_blank beforeBlank) front
      have after := (Whole.parts (whole_of_word other word).balanced behind).2
      rw [chars']
      exact (before.append (name'.append after)).append args

end RespelledStage

/-- Balanced members with commas between them are balanced. -/
theorem balanced_members {items : List String} (balanced : ∀ item ∈ items, Balanced item.toList)
    : Balanced (",".intercalate items).toList := by
  have comma : Balanced [','] := rfl
  rw [String.toList_intercalate]
  exact comma.intercalate (List.forall_mem_map.mpr balanced)

/-- A delimiter cuts no spelling of a text that it does not cut, by induction over the spellings. -/
theorem Respelled.whole {text text' : String} (respelled : Respelled text text')
    {delimiter : Char} (other : isNameChar delimiter = false)
    (whole : Whole delimiter text.toList)
    : Whole delimiter text'.toList := by
  induction respelled generalizing delimiter with
  | device stage _ => exact stage.whole other whole
  | filter stage nested _ ih =>
      have bar : Balanced "|".toList := rfl
      rw [String.toList_append, String.toList_append] at whole ⊢
      obtain ⟨front, rest⟩ := Whole.parts (nested.balanced.append bar) whole
      obtain ⟨front, bar⟩ := Whole.parts nested.balanced front
      exact ((stage.whole other front).append bar).append (ih other rest)
  | list leftBlank rightBlank nested each ih =>
      have inside := balanced_members
        (List.forall_mem_map.mpr (fun item member => (nested item member).balanced))
      have inside' := balanced_members
        (List.forall_mem_map.mpr
          (fun item member =>
            have comma : Whole ',' _ := (nested item member).whole (Or.inl (by simp))
            (ih item member (by decide) comma).balanced))
      have left := balanced_of_blank (List.all_eq_true.mp leftBlank)
      rw [String.toList_append, String.toList_append] at whole ⊢
      obtain ⟨front, right⟩ := Whole.parts (left.append (inside.whole_brackets ',').balanced) whole
      exact ((Whole.parts left front).1.append (inside'.whole_brackets delimiter)).append right

-----------------------------------------------------------------------------------------
-- Parts of texts that are read
-----------------------------------------------------------------------------------------

/-- A text that a bar cuts has a first stage that the bar does not cut. -/
theorem whole_or_exists_front {text : String} {pipeline : Pipeline}
    (parsed : parse text = .ok pipeline)
    : Whole '|' text.toList
      ∨ ∃ front rest, Whole '|' front.toList ∧ text = front ++ "|" ++ rest := by
  obtain ⟨_, split, _⟩ := parse_eq_ok.mp parsed
  obtain ⟨piece, pieces, _, cuts, _⟩ := exists_pieces_of_splitIn split
  obtain ⟨chars, each⟩ := (cut_eq_ok (by decide)).mp cuts
  have first := each piece List.mem_cons_self
  cases pieces with
  | nil =>
      rw [List.intercalate_singleton] at chars
      rw [chars]
      exact .inl first
  | cons next others =>
      refine .inr ⟨.ofList piece, .ofList (['|'].intercalate (next :: others)), ?_, ?_⟩
      · rwa [String.toList_ofList]
      · rw [← String.toList_inj, chars, List.intercalate_cons_cons]
        simp [String.toList_append]

/-- A text that starts with a bracket and is read as a leaf ends with one. -/
theorem exists_inside {text : String} {leaf : Leaf} (read : parseLeaf text = .ok leaf)
    (bracket : text.toList.head? = some '[')
    : ∃ inside, text = "[" ++ inside ++ "]" := by
  obtain ⟨rest, chars⟩ := List.head?_eq_some_iff.mp bracket
  simp only [parseLeaf, chars, bracketed?] at read
  split at read
  · cases read
  · next inner ends =>
      split at ends
      · next last =>
          obtain ⟨inside, rfl⟩ := List.getLast?_eq_some_iff.mp last
          refine ⟨String.ofList inside, ?_⟩
          rw [← String.toList_inj, chars]
          simp [String.toList_append]
      · cases ends

/-- The members of a list are texts with commas between them, none of them longer than the list. -/
theorem exists_members {context inside : String} {items : List String}
    (read : parseList context inside = .ok items)
    : ∃ texts,
        inside = ",".intercalate texts
        ∧ (∀ text ∈ texts, Whole ',' text.toList ∧ text.length ≤ inside.length)
        ∧ items = texts.map trim := by
  obtain ⟨piece, pieces, _, cuts, rfl⟩ := exists_pieces_of_splitIn read
  obtain ⟨chars, each⟩ := (cut_eq_ok (by decide)).mp cuts
  refine ⟨(piece :: pieces).map String.ofList, ?_, ?_, ?_⟩
  · rw [← String.toList_inj, chars, String.toList_intercalate, List.map_map]
    simp [Function.comp_def]
  · rw [List.forall_mem_map]
    intro p member
    have short := length_le_of_cut cuts p member
    rw [String.toList_ofList, String.length_ofList, ← String.length_toList]
    exact ⟨each p member, short⟩
  · rw [List.map_map]
    simp only [Function.comp_def, trim, String.toList_ofList]

end PixelTree.Descriptor
