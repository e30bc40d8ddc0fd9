import PixelTree.Proofs.Json.Tokens

/-! JSON values read back: what is printed for a value is read as that value, at any depth, if its
numbers are natural ones.
-/

namespace PixelTree.Json

open Text Text.Reader

-----------------------------------------------------------------------------------------
-- Rows
-----------------------------------------------------------------------------------------

/-- A line break and the spaces of a level. -/
def gap (level : Nat) : List Char :=
  '\n' :: List.replicate (2 * level) ' '

theorem isBlank_of_mem_gap {level : Nat} : ∀ c ∈ gap level, Reading.isBlank c = true := by
  intro c member
  rcases List.mem_cons.mp member with rfl | space
  · rfl
  · rw [(List.mem_replicate.mp space).2]
    rfl

/-- What is printed behind a part of an array or an object: its other parts, each behind a comma
and a gap, and the closing bracket behind a last gap.
-/
def behind (level : Nat) (closing : Char) : List String → List Char
  | [] => gap level ++ [closing]
  | part :: parts => ',' :: gap (level + 1) ++ part.toList ++ behind level closing parts

theorem toList_leftBracket : "[".toList = ['['] :=
  rfl

theorem toList_rightBracket : "]".toList = [']'] :=
  rfl

theorem toList_leftBrace : "\x7b".toList = ['{'] :=
  rfl

theorem toList_rightBrace : "\x7d".toList = ['}'] :=
  rfl

/-- What is printed inside of an array or an object, with the closing bracket. -/
def inside (level : Nat) (closing : Char) : List String → List Char
  | [] => [closing]
  | first :: others => gap (level + 1) ++ first.toList ++ behind level closing others

theorem toList_bracketed {opening closing : String} {left right : Char}
    (opens : opening.toList = [left]) (closes : closing.toList = [right]) (level : Nat)
    (parts : List String)
    : (bracketed opening closing level parts).toList = left :: inside level right parts := by
  have gap_eq (level : Nat) : (lineBreak level).toList = gap level := by
    simp [lineBreak, gap]
  have row (first : String) (others : List String)
      : (("," ++ lineBreak (level + 1)).intercalate (first :: others)).toList
          ++ gap level ++ [right]
        = first.toList ++ behind level right others := by
    induction others generalizing first with
    | nil => rw [String.intercalate_singleton, List.append_assoc, behind]
    | cons second others ih =>
        have later := ih second
        simp only [List.append_assoc] at later
        simp only [String.intercalate_cons_cons, String.toList_append, List.append_assoc, later,
          gap_eq, behind]
        rfl
  cases parts with
  | nil =>
      rw [bracketed, if_pos List.isEmpty_nil, String.toList_append, opens, closes]
      rfl
  | cons first others =>
      have whole := row first others
      rw [bracketed, if_neg (by simp), inside]
      simp only [String.toList_append, gap_eq, opens, closes, List.append_assoc] at whole ⊢
      rw [whole]
      rfl

/-- Each part is no longer than what is inside of the brackets. -/
theorem length_le_inside {level : Nat} {closing : Char} {part : String} {parts : List String}
    (member : part ∈ parts)
    : part.length ≤ (inside level closing parts).length := by
  have row {first : String} {others : List String} (member : part ∈ first :: others)
      : part.length ≤ (first.toList ++ behind level closing others).length := by
    induction others generalizing first with
    | nil =>
        obtain rfl := List.mem_singleton.mp member
        rw [List.length_append, String.length_toList]
        exact Nat.le_add_right _ _
    | cons second others ih =>
        rw [behind]
        simp only [List.length_append, List.length_cons, String.length_toList] at ih ⊢
        rcases List.mem_cons.mp member with rfl | later
        · omega
        · have shorter := ih later
          omega
  cases parts with
  | nil => cases member
  | cons first others =>
      have shorter := row member
      simp only [inside, List.length_append] at shorter ⊢
      omega

namespace Reading

theorem run_blanks {lead rest : List Char} (blank : ∀ c ∈ lead, isBlank c = true)
    (starts : ∀ c ∈ rest.head?, isBlank c = false)
    : blanks.run (lead ++ rest) = some ((), rest) := by
  rw [blanks, run_bind_of_run (run_span blank starts)]
  rfl

theorem run_blanks_cons {c : Char} (visible : isBlank c = false) (rest : List Char)
    : blanks.run (c :: rest) = some ((), c :: rest) := by
  rw [← List.nil_append (c :: rest)]
  exact run_blanks (by simp) (by simpa using visible)

/-- What follows a part ends a number. -/
theorem stops_behind (level : Nat) (closing : Char) (parts : List String) (rest : List Char)
    : Stops (behind level closing parts ++ rest) := by
  intro c next
  cases parts with
  | nil =>
      obtain rfl := Option.some.inj next
      exact .inr rfl
  | cons part parts =>
      obtain rfl := Option.some.inj next
      exact .inl rfl

variable {τ : Type}

theorem run_partEnd_comma (closing : Char) (parts : List τ) (rest : List Char)
    : (partEnd closing parts).run (',' :: rest) = some (.inl parts, rest) := by
  rw [partEnd, run_bind_of_run (run_blanks_cons (by decide) rest)]
  rfl

theorem run_partEnd_closing {closing : Char} (visible : isBlank closing = false)
    (differs : closing ≠ ',') (parts : List τ) (level : Nat) (rest : List Char)
    : (partEnd closing parts).run (gap level ++ closing :: rest)
      = some (.inr parts.reverse, rest) := by
  rw [partEnd, run_bind_of_run (run_blanks isBlank_of_mem_gap (by simpa using visible)),
    run_bind_of_run (run_next closing rest)]
  split
  · contradiction
  · rw [if_pos rfl]
    rfl

/-- A step of a loop reads a part of an array or an object, and then what follows the part. -/
def Takes (step : List τ → Reader (List τ ⊕ List τ)) (closing : Char) (text : String) (value : τ)
    : Prop :=
  ∀ parts lead, (∀ c ∈ lead, isBlank c = true) → ∀ rest, Stops rest →
    (step parts).run (lead ++ text.toList ++ rest) = (partEnd closing (value :: parts)).run rest

/-- A loop reads all parts up to the closing bracket, by induction over them. -/
theorem run_repeated_of_takes {step : List τ → Reader (List τ ⊕ List τ)} {closing : Char}
    (visible : isBlank closing = false) (differs : closing ≠ ',') (first : String × τ)
    (others : List (String × τ))
    (takes : ∀ part ∈ first :: others, Takes step closing part.1 part.2) {bound : List Char}
    (enough : others.length < bound.length) (parts : List τ) {lead : List Char}
    (blank : ∀ c ∈ lead, isBlank c = true) (level : Nat) (rest : List Char)
    : (repeated step bound parts).run
          (lead ++ first.1.toList ++ behind level closing (others.map Prod.fst) ++ rest)
        = some (parts.reverse ++ first.2 :: others.map Prod.snd, rest) := by
  induction others generalizing first parts lead bound with
  | nil =>
      obtain ⟨bit, bound, rfl⟩ := List.exists_cons_of_length_pos enough
      have last := takes first List.mem_cons_self parts lead blank _
        (stops_behind level closing [] rest)
      have closed := run_partEnd_closing visible differs (first.2 :: parts) level rest
      rw [behind, List.append_assoc (gap level), List.singleton_append, closed] at last
      rw [List.map_nil, behind, List.append_assoc _ _ rest, List.append_assoc (gap level),
        List.singleton_append, run_repeated_inr last, List.reverse_cons, List.map_nil]
  | cons second others ih =>
      obtain ⟨bit, bound, rfl⟩ := List.exists_cons_of_length_pos (Nat.zero_lt_of_lt enough)
      obtain ⟨here, later⟩ := List.forall_mem_cons.mp takes
      have other := here parts lead blank _
        (stops_behind level closing (second.1 :: others.map Prod.fst) rest)
      have comma := run_partEnd_comma closing (first.2 :: parts)
        (gap (level + 1) ++ second.1.toList ++ behind level closing (others.map Prod.fst) ++ rest)
      have split : behind level closing (second.1 :: others.map Prod.fst) ++ rest
          = ',' :: (gap (level + 1) ++ second.1.toList ++ behind level closing (others.map Prod.fst)
            ++ rest) := by
        rw [behind]
        simp
      rw [split, comma] at other
      rw [List.map_cons, List.append_assoc _ _ rest, split, run_repeated_inl other,
        ih second later (Nat.lt_of_succ_lt_succ enough) (first.2 :: parts) isBlank_of_mem_gap,
        List.reverse_cons]
      simp

end Reading

-----------------------------------------------------------------------------------------
-- Values
-----------------------------------------------------------------------------------------

mutual
/-- A value as a reader finds it, without any text missing. -/
def found : Json String → Found
  | .null => .null
  | .boolean value => .boolean value
  | .number literal => .number literal
  | .text value => .text (some value)
  | .array items => .array (foundItems items)
  | .object members => .object (foundMembers members)

def foundItems : List (Json String) → List Found
  | [] => []
  | item :: rest => found item :: foundItems rest

def foundMembers : List (String × Json String) → List (Option String × Found)
  | [] => []
  | (key, value) :: rest => (some key, found value) :: foundMembers rest
end

/-- A value that is nested less deep than a number says, and all of whose numbers are natural. -/
inductive Within : Nat → Json String → Prop where
  | null {depth : Nat} : Within (depth + 1) .null
  | boolean {depth : Nat} (value : Bool) : Within (depth + 1) (.boolean value)
  | number {depth : Nat} (n : Nat) : Within (depth + 1) (.number (Numeral.decimal n))
  | text {depth : Nat} (value : String) : Within (depth + 1) (.text value)
  | array {depth : Nat} {items : List (Json String)} (each : ∀ item ∈ items, Within depth item)
    : Within (depth + 1) (.array items)
  | object {depth : Nat} {members : List (String × Json String)}
    (each : ∀ member ∈ members, Within depth member.2)
    : Within (depth + 1) (.object members)

theorem foundItems_eq_map (items : List (Json String)) : foundItems items = items.map found := by
  induction items with
  | nil => rfl
  | cons item rest ih => rw [foundItems, ih, List.map_cons]

theorem foundMembers_eq_map (members : List (String × Json String))
    : foundMembers members = members.map (fun member => (some member.1, found member.2)) := by
  induction members with
  | nil => rfl
  | cons member rest ih => rw [foundMembers, ih, List.map_cons]

theorem prettyItems_eq_map (level : Nat) (items : List (Json String))
    : prettyItems level items = items.map (pretty level) := by
  induction items with
  | nil => rfl
  | cons item rest ih => rw [prettyItems, ih, List.map_cons]

/-- A member of an object as it is printed. -/
def memberText (level : Nat) (member : String × Json String) : String :=
  quoted member.1 ++ ": " ++ pretty level member.2

theorem prettyMembers_eq_map (level : Nat) (members : List (String × Json String))
    : prettyMembers level members = members.map (memberText level) := by
  induction members with
  | nil => rfl
  | cons member rest ih => rw [prettyMembers, ih, List.map_cons, memberText]

theorem toList_quoted (s : String)
    : (quoted s).toList = '"' :: (s.toList.flatMap escapeChar ++ ['"']) := by
  rw [quoted, String.toList_ofList]
  rfl

theorem toList_memberText (level : Nat) (member : String × Json String)
    : (memberText level member).toList
      = '"' :: (member.1.toList.flatMap escapeChar
          ++ '"' :: ':' :: ([' '] ++ (pretty level member.2).toList)) := by
  simp [memberText, toList_quoted]

theorem isBlank_eq_false_of_isDigit {c : Char} (digit : c.isDigit = true)
    : Reading.isBlank c = false := by
  simp only [Reading.isBlank, Bool.or_eq_false_iff, beq_eq_false_iff_ne]
  refine ⟨⟨⟨?_, ?_⟩, ?_⟩, ?_⟩ <;>
  · rintro rfl
    exact absurd digit (by decide)

/-- A printed value starts with a character that is neither a blank nor a closing bracket. -/
theorem exists_first {depth : Nat} {json : Json String} (within : Within depth json) (level : Nat)
    : ∃ c cs, (pretty level json).toList = c :: cs ∧ Reading.isBlank c = false ∧ c ≠ ']' := by
  cases within with
  | null => exact ⟨'n', ['u', 'l', 'l'], by rw [pretty]; rfl, by decide⟩
  | boolean value =>
      cases value with
      | false => exact ⟨'f', ['a', 'l', 's', 'e'], by rw [pretty]; rfl, by decide⟩
      | true => exact ⟨'t', ['r', 'u', 'e'], by rw [pretty]; rfl, by decide⟩
  | number n =>
      obtain ⟨c, cs, row, digits⟩ := Reading.exists_digits n
      have digit := digits c List.mem_cons_self
      refine ⟨c, cs, ?_, isBlank_eq_false_of_isDigit digit, ?_⟩
      · rw [pretty, Numeral.toList_decimal, row]
      · rintro rfl
        exact absurd digit (by decide)
  | text value => exact ⟨'"', _, toList_quoted value, by decide⟩
  | array => exact ⟨'[', _, toList_bracketed toList_leftBracket toList_rightBracket .., by decide⟩
  | object => exact ⟨'{', _, toList_bracketed toList_leftBrace toList_rightBrace .., by decide⟩

namespace Reading

/-- A value is read from a text behind any blanks and in front of whatever ends a number. -/
def Reads (fuel : Nat) (text : String) (value : Found) : Prop :=
  ∀ lead, (∀ c ∈ lead, isBlank c = true) → ∀ rest, Stops rest →
    (Reading.value fuel).run (lead ++ text.toList ++ rest) = some (value, rest)

variable {fuel : Nat} {text : String} {result : Found}

theorem takes_item (reads : Reads fuel text result)
    : Takes (itemStep (value fuel)) ']' text result := by
  intro parts lead blank rest stops
  rw [itemStep, run_bind_of_run (reads lead blank rest stops)]

theorem takes_member (reads : Reads fuel text result) (key : String)
    : Takes (memberStep (value fuel)) '}' (quoted key ++ ": " ++ text) (some key, result) := by
  intro parts lead blank rest stops
  have member : (quoted key ++ ": " ++ text).toList ++ rest
      = '"' :: (key.toList.flatMap escapeChar ++ '"' :: ':' :: ([' '] ++ text.toList ++ rest)) := by
    simp [toList_quoted]
  have space : ∀ c ∈ [' '], isBlank c = true := by
    simp [isBlank]
  rw [List.append_assoc, member, memberStep, run_bind_of_run (run_blanks blank (by simp [isBlank])),
    run_bind_of_run (run_skip _ _), run_bind_of_run (run_text key _),
    run_bind_of_run (run_blanks_cons (by decide) _), run_bind_of_run (run_skip _ _),
    run_bind_of_run (reads [' '] space rest stops)]

theorem length_le_behind (level : Nat) (closing : Char) (parts : List String)
    : parts.length ≤ (behind level closing parts).length := by
  induction parts with
  | nil => exact Nat.zero_le _
  | cons part parts ih =>
      simp only [behind, List.length_append, List.length_cons]
      omega

/-- What is inside of an array or an object is read up to its closing bracket, by cases on whether
it has parts.
-/
theorem run_parts {step : List τ → Reader (List τ ⊕ List τ)} {closing : Char}
    (visible : isBlank closing = false) (differs : closing ≠ ',') (row : List (String × τ))
    (takes : ∀ part ∈ row, Takes step closing part.1 part.2)
    (starts : ∀ part ∈ row, ∃ c cs, part.1.toList = c :: cs ∧ isBlank c = false ∧ c ≠ closing)
    (level : Nat) (rest : List Char)
    : (parts closing step).run (inside level closing (row.map Prod.fst) ++ rest)
      = some (row.map Prod.snd, rest) := by
  cases row with
  | nil =>
      rw [List.map_nil, inside, List.singleton_append, parts,
        run_bind_of_run (run_blanks_cons visible rest), run_bind_of_run (run_takes closing rest)]
      rfl
  | cons first others =>
      obtain ⟨c, cs, chars, shown, notClosing⟩ := starts first List.mem_cons_self
      have enough : others.length < (' ' :: (first.1.toList
          ++ behind level closing (others.map Prod.fst) ++ rest)).length := by
        have shorter := length_le_behind level closing (others.map Prod.fst)
        simp only [List.length_map, List.length_cons, List.length_append] at shorter ⊢
        omega
      have looped : (loop step []).run
            (first.1.toList ++ behind level closing (others.map Prod.fst) ++ rest)
          = some (first.2 :: others.map Prod.snd, rest) := by
        have nothing : ∀ c ∈ ([] : List Char), isBlank c = true := by simp
        exact run_repeated_of_takes visible differs first others takes enough [] nothing level rest
      rw [List.append_assoc] at looped
      rw [List.map_cons, inside, List.append_assoc, List.append_assoc, parts,
        run_bind_of_run (run_blanks isBlank_of_mem_gap (by simp [chars, shown])),
        run_bind_of_run (run_takes_of_ne (by simp [chars, notClosing]))]
      exact looped

-----------------------------------------------------------------------------------------
-- Values by their first characters
-----------------------------------------------------------------------------------------

/-- Blanks in front of a value are passed over, and its first character decides. -/
theorem run_value {lead : List Char} (blank : ∀ c ∈ lead, isBlank c = true) {c : Char}
    (visible : isBlank c = false) (fuel : Nat) (rest : List Char)
    : (value (fuel + 1)).run (lead ++ c :: rest)
      = (valueFrom (value fuel) (some c)).run (c :: rest) := by
  rw [value, run_bind_of_run (run_blanks blank (by simpa using visible)),
    run_bind_of_run (run_peek? _), List.head?_cons]

theorem reads_of_run {c : Char} {cs : List Char} (chars : text.toList = c :: cs)
    (visible : isBlank c = false)
    (run : ∀ rest, Stops rest →
      (valueFrom (value fuel) (some c)).run (text.toList ++ rest) = some (result, rest))
    : Reads (fuel + 1) text result := by
  intro lead blank rest stops
  have first := run rest stops
  rw [chars, List.cons_append] at first
  rw [List.append_assoc, chars, List.cons_append, run_value blank visible, first]

theorem reads_null : Reads (fuel + 1) "null" .null := by
  refine reads_of_run (show "null".toList = 'n' :: ['u', 'l', 'l'] from rfl) (by decide) ?_
  intro rest _
  rw [valueFrom, run_bind_of_run (run_skipAll _ rest)]
  rfl

theorem reads_boolean (value : Bool)
    : Reads (fuel + 1) (if value then "true" else "false") (.boolean value) := by
  cases value with
  | true =>
      refine reads_of_run (show "true".toList = 't' :: ['r', 'u', 'e'] from rfl) (by decide) ?_
      intro rest _
      rw [valueFrom, if_pos rfl, run_bind_of_run (run_skipAll _ rest)]
      rfl
  | false =>
      refine reads_of_run (show "false".toList = 'f' :: ['a', 'l', 's', 'e'] from rfl)
        (by decide) ?_
      intro rest _
      rw [valueFrom, if_neg Bool.false_ne_true, run_bind_of_run (run_skipAll _ rest)]
      rfl

theorem reads_number (n : Nat)
    : Reads (fuel + 1) (Numeral.decimal n) (.number (Numeral.decimal n)) := by
  obtain ⟨c, cs, row, digits⟩ := exists_digits n
  have digit := digits c List.mem_cons_self
  rw [← Numeral.toList_decimal] at row
  refine reads_of_run row (isBlank_eq_false_of_isDigit digit) ?_
  intro rest stops
  have other : valueFrom (value fuel) (some c) = (do return .number (← number)) := by
    unfold valueFrom
    split <;> first | rfl | (exfalso; simp_all)
  rw [other, run_bind_of_run (run_number n stops)]
  rfl

theorem reads_text (s : String) : Reads (fuel + 1) (quoted s) (.text (some s)) := by
  refine reads_of_run (toList_quoted s) (by decide) ?_
  intro rest _
  rw [toList_quoted, List.cons_append, List.append_assoc, List.singleton_append, valueFrom,
    run_bind_of_run (run_skip _ _), run_bind_of_run (run_text s rest)]
  rfl

theorem reads_array {level : Nat} {items : List (Json String)}
    (within : ∀ item ∈ items, Within fuel item)
    (reads : ∀ item ∈ items, Reads fuel (pretty (level + 1) item) item.found)
    : Reads (fuel + 1) (pretty level (.array items)) (.array (items.map found)) := by
  let part (item : Json String) := (pretty (level + 1) item, item.found)
  have texts : (items.map part).map Prod.fst = items.map (pretty (level + 1)) := List.map_map
  have values : (items.map part).map Prod.snd = items.map found := List.map_map
  have text : (pretty level (.array items)).toList
      = '[' :: inside level ']' (items.map (pretty (level + 1))) := by
    rw [pretty, prettyItems_eq_map, toList_bracketed toList_leftBracket toList_rightBracket]
  refine reads_of_run text (by decide) ?_
  intro rest _
  have row := run_parts (by decide) (by decide) (items.map part)
    (List.forall_mem_map.mpr fun item member => takes_item (reads item member))
    (List.forall_mem_map.mpr fun item member => exists_first (within item member) (level + 1))
    level rest
  rw [texts, values] at row
  rw [text, List.cons_append, valueFrom, run_bind_of_run (run_skip _ _), run_bind_of_run row]
  rfl

theorem reads_object {level : Nat} {members : List (String × Json String)}
    (reads : ∀ member ∈ members, Reads fuel (pretty (level + 1) member.2) member.2.found)
    : Reads (fuel + 1) (pretty level (.object members))
        (.object (members.map (fun member => (some member.1, found member.2)))) := by
  let part (member : String × Json String) :=
    (memberText (level + 1) member, (some member.1, member.2.found))
  have texts : (members.map part).map Prod.fst = members.map (memberText (level + 1)) :=
    List.map_map
  have values : (members.map part).map Prod.snd
      = members.map (fun member => (some member.1, found member.2)) :=
    List.map_map
  have text : (pretty level (.object members)).toList
      = '{' :: inside level '}' (members.map (memberText (level + 1))) := by
    rw [pretty, prettyMembers_eq_map, toList_bracketed toList_leftBrace toList_rightBrace]
  refine reads_of_run text (by decide) ?_
  intro rest _
  have row := run_parts (by decide) (by decide) (members.map part)
    (List.forall_mem_map.mpr fun member found => takes_member (reads member found) member.1)
    (List.forall_mem_map.mpr fun member _ =>
      ⟨'"', _, toList_memberText (level + 1) member, by decide⟩)
    level rest
  rw [texts, values] at row
  rw [text, List.cons_append, valueFrom, run_bind_of_run (run_skip _ _), run_bind_of_run row]
  rfl

/-- A printed value is read back, by induction over what is nested in it. -/
theorem reads_pretty {json : Json String} (within : Within fuel json) (level : Nat)
    : Reads fuel (pretty level json) json.found := by
  induction within generalizing level with
  | null => rw [pretty]; exact reads_null
  | boolean value => rw [pretty]; exact reads_boolean value
  | number n => rw [pretty]; exact reads_number n
  | text value => rw [pretty]; exact reads_text value
  | array each ih =>
      rw [found, foundItems_eq_map]
      exact reads_array each (fun item member => ih item member (level + 1))
  | object each ih =>
      rw [found, foundMembers_eq_map]
      exact reads_object (fun item member => ih item member (level + 1))

end Reading

theorem length_lt_bracketed {opening closing : String} {left right : Char}
    (opens : opening.toList = [left]) (closes : closing.toList = [right]) (level : Nat)
    {parts : List String} {part : String} (member : part ∈ parts)
    : part.length < (bracketed opening closing level parts).length := by
  have whole := congrArg List.length (toList_bracketed opens closes level parts)
  rw [String.length_toList, List.length_cons] at whole
  rw [whole]
  exact Nat.lt_succ_of_le (length_le_inside member)

/-- A value is nested less deep than its text is long. -/
theorem Within.of_length {depth : Nat} {json : Json String} (within : Within depth json)
    {level fuel : Nat} (enough : (pretty level json).length ≤ fuel + 1)
    : Within (fuel + 1) json := by
  -- A part is shorter than the whole, and never empty.
  have part {depth level fuel : Nat} {json : Json String} (within : Within depth json)
      (shorter : (pretty level json).length < fuel + 1)
      : ∃ less, fuel = less + 1 ∧ (pretty level json).length ≤ less + 1 := by
    obtain ⟨c, cs, chars, _⟩ := exists_first within level
    have length : (pretty level json).length = cs.length + 1 := by
      rw [← String.length_toList, chars, List.length_cons]
    exact ⟨fuel - 1, by omega, by omega⟩
  induction within generalizing level fuel with
  | null => exact .null
  | boolean value => exact .boolean value
  | number n => exact .number n
  | text value => exact .text value
  | @array depth items each ih =>
      refine .array fun item member => ?_
      rw [pretty, prettyItems_eq_map] at enough
      have shorter := length_lt_bracketed toList_leftBracket toList_rightBracket level
        (List.mem_map_of_mem (f := pretty (level + 1)) member)
      obtain ⟨less, rfl, fits⟩ := part (each item member) (shorter.trans_le enough)
      exact ih item member fits
  | @object depth members each ih =>
      refine .object fun member found => ?_
      rw [pretty, prettyMembers_eq_map] at enough
      have shorter := length_lt_bracketed toList_leftBrace toList_rightBrace level
        (List.mem_map_of_mem (f := memberText (level + 1)) found)
      have shortest : (pretty (level + 1) member.2).length
          ≤ (memberText (level + 1) member).length := by
        rw [memberText, String.length_append]
        exact Nat.le_add_left _ _
      obtain ⟨less, rfl, fits⟩ :=
        part (each member found) ((shortest.trans_lt shorter).trans_le enough)
      exact ih member found fits

/-- A printed value whose numbers are natural is read back. -/
theorem parse?_pretty {depth : Nat} {json : Json String} (within : Within depth json)
    : parse? (pretty 0 json) = some json.found := by
  have deep : Within ((pretty 0 json).length + 1) json :=
    within.of_length (Nat.le_succ (pretty 0 json).length)
  have value := Reading.reads_pretty deep 0 [] (by simp) [] (by simp [Reading.Stops])
  rw [List.nil_append, List.append_nil] at value
  apply readAll?_of_run
  rw [← String.length_toList] at value ⊢
  rw [run_bind_of_run value]
  rfl

end PixelTree.Json
