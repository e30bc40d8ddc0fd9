import PixelTree.Proofs.Build.Composition
import PixelTree.Proofs.Descriptor.Spelling

/-! Entering further types in a catalog changes nothing that was found before, and so it changes
no tree: what a descriptor builds it builds with every extension of the catalog, whatever the case
of letters in the names of types.
-/

namespace PixelTree

open Descriptor (Stage Respelled RespelledStage Whole Balanced)
open Text (sameWord)

namespace Catalog

-----------------------------------------------------------------------------------------
-- Entering and finding
-----------------------------------------------------------------------------------------

/-- Enters a type behind all others. -/
def register (catalog : Catalog) (entry : Entry) : Catalog :=
  catalog ++ [entry]

/-- Enters several types in order. -/
def registerAll (catalog : Catalog) (entries : List Entry) : Catalog :=
  entries.foldl register catalog

theorem registerAll_eq (catalog : Catalog) (entries : List Entry)
    : catalog.registerAll entries = catalog ++ entries := by
  induction entries generalizing catalog with
  | nil => exact (List.append_nil catalog).symm
  | cons entry rest ih => exact (ih (catalog.register entry)).trans (List.append_cons ..).symm

/-- The entry that is found has the name, and no earlier one has it. -/
theorem find?_eq_some {catalog : Catalog} {name : String} {entry : Entry}
    : catalog.find? name = some entry
      ↔ ∃ front back,
          catalog = front ++ entry :: back
          ∧ sameWord entry.name name = true
          ∧ ∀ earlier ∈ front, sameWord earlier.name name = false := by
  rw [find?, List.find?_eq_some_iff_append]
  constructor
  · rintro ⟨same, front, back, rfl, others⟩
    exact ⟨front, back, rfl, same, fun earlier member => by simpa using others earlier member⟩
  · rintro ⟨front, back, rfl, same, others⟩
    exact ⟨same, front, back, rfl, fun earlier member => by simpa using others earlier member⟩

/-- An answer stays the same however many types are entered. -/
theorem find?_append {catalog : Catalog} {name : String} {entry : Entry}
    (found : catalog.find? name = some entry) (more : List Entry)
    : find? (catalog ++ more) name = some entry := by
  rw [find?, List.find?_append]
  rw [find?] at found
  rw [found]
  rfl

/-- Names that differ in the case of letters find the same. -/
theorem find?_congr (catalog : Catalog) {name name' : String}
    (same : Text.foldCase name = Text.foldCase name')
    : catalog.find? name = catalog.find? name' := by
  simp only [find?, sameWord, same]

-----------------------------------------------------------------------------------------
-- Devices and filters
-----------------------------------------------------------------------------------------

variable {catalog : Catalog} {spacing : Nat} {supply supply' : SeedSupply} {node : Node}

/-- A device is made of the same entry behind which more types were entered. -/
theorem makeDevice_append {stage stage' : Stage} (alike : stage.Alike stage')
    (made : catalog.makeDevice stage supply = .ok (node, supply')) (more : List Entry)
    : makeDevice (catalog ++ more) stage' supply = .ok (node, supply') := by
  cases found : catalog.find? stage.name with
  | none =>
      simp only [makeDevice, found] at made
      cases made
  | some entry =>
      have later := find?_append found more
      rw [find?_congr _ alike.name] at later
      simp only [makeDevice, found] at made
      simp only [makeDevice, later, ← alike.args]
      cases maker : entry.maker with
      | device make => simpa only [maker] using made
      | filter wrap =>
          simp only [maker] at made
          cases made

/-- A filter is applied of the same entry behind which more types were entered. -/
theorem applyFilter_append {stage stage' : Stage} (alike : stage.Alike stage') {inner : Node}
    (applied : catalog.applyFilter stage inner supply = .ok (node, supply')) (more : List Entry)
    : applyFilter (catalog ++ more) stage' inner supply = .ok (node, supply') := by
  cases found : catalog.find? stage.name with
  | none =>
      simp only [applyFilter, found] at applied
      cases applied
  | some entry =>
      have later := find?_append found more
      rw [find?_congr _ alike.name] at later
      simp only [applyFilter, found] at applied
      simp only [applyFilter, later, ← alike.args]
      cases maker : entry.maker with
      | filter wrap => simpa only [maker] using applied
      | device make =>
          simp only [maker] at applied
          cases applied

-----------------------------------------------------------------------------------------
-- Whole descriptors
-----------------------------------------------------------------------------------------

/-- A list between blanks builds the members that its tokens build. -/
theorem build_bracketed {left inside right : String}
    (leftBlank : Text.isAllBlank left.toList = true)
    (rightBlank : Text.isAllBlank right.toList = true) (balanced : Balanced inside.toList)
    : catalog.build spacing (left ++ ("[" ++ inside ++ "]") ++ right) supply = .ok (node, supply')
      ↔ ∃ items members,
          Descriptor.parseList "device list" inside = .ok items
          ∧ items.mapM (catalog.build spacing) supply = .ok (members, supply')
          ∧ node = joined spacing members := by
  have tidy := Descriptor.tidy_brackets inside
  rw [← build_trim_eq_ok, Text.trim_between leftBlank tidy rightBlank,
    build_brackets tidy (balanced.whole_brackets '|')]

/-- If programs in a row succeed as their counterparts do, so does the row, by induction over it. -/
theorem mapM_snd_of_fst {α β γ ε σ : Type} {f : α → StateT σ (Except ε) γ}
    {g : β → StateT σ (Except ε) γ} {items : List (α × β)}
    (each
      : ∀ item ∈ items, ∀ {state result},
          f item.1 state = .ok result → g item.2 state = .ok result)
    {state : σ} {results : List γ} {state' : σ}
    (done : (items.map Prod.fst).mapM f state = .ok (results, state'))
    : (items.map Prod.snd).mapM g state = .ok (results, state') := by
  induction items generalizing state results with
  | nil => exact done
  | cons item rest ih =>
      obtain ⟨first, others, between, head, tail, rfl⟩ := mapM_cons_eq_ok.mp done
      have later := ih (fun i member => each i (List.mem_cons_of_mem _ member)) tail
      exact mapM_cons_eq_ok.mpr
        ⟨first, others, between, each item List.mem_cons_self head, later, rfl⟩

/-- A descriptor builds the same tree in each of its spellings, and however many types are entered
behind those of the catalog, by induction over the spellings.
-/
theorem build_append_of_respelled {text text' : String} (respelled : Respelled text text')
    {built : Node × SeedSupply} (made : catalog.build spacing text supply = .ok built)
    (more : List Entry)
    : build (catalog ++ more) spacing text' supply = .ok built := by
  induction respelled generalizing supply built with
  | device stage nested =>
      have whole : Whole '|' _ := nested.whole (Or.inl (by simp))
      obtain ⟨first, read, device⟩ := (build_device_eq_ok whole stage.head?_ne).mp made
      obtain ⟨second, read', alike⟩ := stage.exists_alike read
      exact (build_device_eq_ok (stage.whole (by decide) whole) stage.symm.head?_ne).mpr
        ⟨second, read', makeDevice_append alike device more⟩
  | filter stage nested behind ih =>
      have whole : Whole '|' _ := nested.whole (Or.inl (by simp))
      obtain ⟨first, inner, between, read, earlier, applied⟩ := (build_cons_eq_ok whole).mp made
      obtain ⟨second, read', alike⟩ := stage.exists_alike read
      exact (build_cons_eq_ok (stage.whole (by decide) whole)).mpr
        ⟨second, inner, between, read', ih earlier, applyFilter_append alike applied more⟩
  | @list left right items leftBlank rightBlank nested each ih =>
      have whole : ∀ text ∈ items.map Prod.fst, Whole ',' text.toList :=
        List.forall_mem_map.mpr
          (fun item member => (nested item member).whole (Or.inl (by simp)))
      have whole' : ∀ text ∈ items.map Prod.snd, Whole ',' text.toList :=
        List.forall_mem_map.mpr
          (fun item member =>
            (each item member).whole (by decide) (whole _ (List.mem_map_of_mem member)))
      have balanced := Descriptor.balanced_members (fun text member => (whole text member).balanced)
      have balanced' :=
        Descriptor.balanced_members (fun text member => (whole' text member).balanced)
      obtain ⟨_, members, read, row, joins⟩ :=
        (build_bracketed leftBlank rightBlank balanced).mp made
      obtain ⟨nonempty, single, rfl⟩ := (Descriptor.parseList_comma_eq_ok _ whole).mp read
      have row' := mapM_snd_of_fst (fun item member {_ _} => ih item member)
        (mapM_build_trim.mp row)
      have single' : ∀ text, items.map Prod.snd = [text] →
          Text.isAllBlank text.toList = false := by
        intro text only
        rw [only] at row'
        obtain ⟨_, _, _, first, _⟩ := mapM_cons_eq_ok.mp row'
        exact not_isAllBlank_of_build first
      have read' := (Descriptor.parseList_comma_eq_ok "device list" whole').mpr
        ⟨by simpa using nonempty, single', rfl⟩
      exact (build_bracketed leftBlank rightBlank balanced').mpr
        ⟨_, members, read', mapM_build_trim.mpr row', joins⟩

/-- A list of texts that are spellings of themselves is one as well. -/
theorem respelled_brackets {text : String} {texts : List String}
    (trimmed : Text.trim text = "[" ++ ",".intercalate texts ++ "]")
    (whole : ∀ member ∈ texts, Whole ',' member.toList)
    (each : ∀ member ∈ texts, Respelled member member)
    : Respelled text text := by
  obtain ⟨left, right, chars, leftBlank, rightBlank⟩ := Text.exists_blank_ends text.toList
  have between
      : text = .ofList left ++ ("[" ++ ",".intercalate texts ++ "]") ++ .ofList right := by
    rw [← trimmed, ← String.toList_inj, Text.trim]
    simpa [String.toList_append] using chars
  let items := texts.map (fun member => (member, member))
  have first : items.map Prod.fst = texts := List.map_map.trans (List.map_id texts)
  have second : items.map Prod.snd = texts := List.map_map.trans (List.map_id texts)
  have nested : ∀ item ∈ items, Descriptor.Nested [','] item.1.toList :=
    List.forall_mem_map.mpr (fun member found => Descriptor.nested_singleton.mpr (whole _ found))
  have same : ∀ item ∈ items, Respelled item.1 item.2 := List.forall_mem_map.mpr each
  have spelled : Respelled
      (.ofList left ++ ("[" ++ ",".intercalate (items.map Prod.fst) ++ "]") ++ .ofList right)
      (.ofList left ++ ("[" ++ ",".intercalate (items.map Prod.snd) ++ "]") ++ .ofList right) := by
    refine .list ?_ ?_ nested same
    · rw [String.toList_ofList]
      exact List.all_eq_true.mpr leftBlank
    · rw [String.toList_ofList]
      exact List.all_eq_true.mpr rightBlank
  rwa [first, second, ← between] at spelled

/-- A text that no bar cuts and that starts with a bracket builds a list of texts. -/
theorem exists_members_of_build {text : String} (whole : Whole '|' text.toList)
    (bracket : (Text.trimChars text.toList).head? = some '[')
    (made : catalog.build spacing text supply = .ok (node, supply'))
    : ∃ texts,
        Text.trim text = "[" ++ ",".intercalate texts ++ "]"
        ∧ ∀ member ∈ texts,
            Whole ',' member.toList
            ∧ member.length < text.length
            ∧ ∃ before result, catalog.build spacing member before = .ok result := by
  have trimmed : (Text.trim text).toList = Text.trimChars text.toList := String.toList_ofList
  have visible := not_isAllBlank_of_build made
  have tidy : Text.Tidy (Text.trim text).toList := by
    rw [trimmed]
    exact Text.tidy_trimChars visible
  have uncut : Whole '|' (Text.trim text).toList := by
    rw [trimmed]
    exact whole.trimChars
  rw [← trimmed] at bracket
  obtain ⟨pipeline, _, _, parsed, _, _⟩ := build_eq_ok.mp made
  rw [← Descriptor.parse_trim_eq_ok, Descriptor.parse_of_whole tidy uncut] at parsed
  obtain ⟨leaf, read, _⟩ := exists_of_map_eq_ok parsed
  obtain ⟨inside, brackets⟩ := Descriptor.exists_inside read bracket
  have shorter : inside.length + 2 ≤ text.length := by
    have ends := Descriptor.length_trimChars_le text.toList
    have length := congrArg String.length brackets
    rw [← trimmed, String.length_toList, String.length_toList, length, String.length_append,
      String.length_append] at ends
    have left : "[".length = 1 := rfl
    have right : "]".length = 1 := rfl
    omega
  rw [brackets] at tidy uncut
  rw [← build_trim_eq_ok, brackets, build_brackets tidy uncut] at made
  obtain ⟨items, members, list, row, _⟩ := made
  obtain ⟨texts, rfl, each, rfl⟩ := Descriptor.exists_members list
  have builds := exists_ok_of_mapM (mapM_build_trim.mp row)
  refine ⟨texts, brackets, ?_⟩
  intro member found
  obtain ⟨comma, short⟩ := each member found
  exact ⟨comma, by omega, builds member found⟩

/-- Every descriptor that builds a tree is one of its own spellings, so its stages are all where
names may be respelled, by induction over the length of the descriptor.
-/
theorem respelled_self {text : String} {built : Node × SeedSupply}
    (made : catalog.build spacing text supply = .ok built)
    : Respelled text text := by
  induction length : text.length using Nat.strong_induction_on
    generalizing text supply built with
  | h n ih =>
      obtain ⟨pipeline, _, _, parsed, _, _⟩ := build_eq_ok.mp made
      rcases Descriptor.whole_or_exists_front parsed with whole | ⟨front, rest, whole, rfl⟩
      · by_cases bracket : (Text.trimChars text.toList).head? = some '['
        · obtain ⟨texts, trimmed, each⟩ := exists_members_of_build whole bracket made
          refine respelled_brackets trimmed (fun member found => (each member found).1) ?_
          intro member found
          obtain ⟨_, shorter, before, result, memberMade⟩ := each member found
          exact ih member.length (by omega) memberMade rfl
        · obtain ⟨stage, read, _⟩ := (build_device_eq_ok whole bracket).mp made
          exact .device (.of_parseStage read) (Descriptor.nested_singleton.mpr whole)
      · obtain ⟨stage, inner, between, read, earlier, _⟩ := (build_cons_eq_ok whole).mp made
        have shorter : rest.length < n := by
          rw [← length, String.length_append, String.length_append]
          have bar : "|".length = 1 := rfl
          omega
        exact .filter (.of_parseStage read) (Descriptor.nested_singleton.mpr whole)
          (ih rest.length shorter earlier rfl)

/-- Entering types is safe. What is found is the first entry with the name, letters of any case
being the same, and it is found however many types are entered afterwards. What a descriptor
builds, each of its spellings builds with all types that are entered afterwards.
-/
theorem registering_is_safe (entries : List Entry)
    : (∀ name entry,
        (registerAll [] entries).find? name = some entry
          ↔ ∃ front back,
              entries = front ++ entry :: back
              ∧ sameWord entry.name name = true
              ∧ ∀ earlier ∈ front, sameWord earlier.name name = false)
      ∧ (∀ more name entry,
        (registerAll [] entries).find? name = some entry →
        ((registerAll [] entries).registerAll more).find? name = some entry)
      ∧ ∀ spacing descriptor supply built,
        (registerAll [] entries).build spacing descriptor supply = .ok built →
        Respelled descriptor descriptor
        ∧ ∀ more other,
            Respelled descriptor other →
            ((registerAll [] entries).registerAll more).build spacing other supply
              = .ok built := by
  simp only [registerAll_eq, List.nil_append]
  refine ⟨fun name entry => find?_eq_some, ?_, ?_⟩
  · intro more name entry found
    exact find?_append found more
  · intro spacing descriptor supply built made
    refine ⟨respelled_self made, ?_⟩
    intro more other respelled
    exact build_append_of_respelled respelled made more

/-- Respelled names in a list, with a filter entered under the name of a device. -/
theorem registering_is_safe_of_clash
    : ∃ built,
        (registerAll [] standard).build 0 "flip|[null:3, null:2]" ⟨fun _ => 7⟩ = .ok built
        ∧ Respelled "flip|[null:3, null:2]" "FLIP|[Null:3, null:2]"
        ∧ ((registerAll [] standard).registerAll
            [⟨"NULL", .filter (fun _ inner => pure inner), "", ""⟩]).build 0
            "FLIP|[Null:3, null:2]" ⟨fun _ => 7⟩
          = .ok built
        ∧ built.1.describe = "flip|[null:3, null:2]" := by
  have described : ((registerAll [] standard).build 0 "flip|[null:3, null:2]" ⟨fun _ => 7⟩).map
      (fun result => result.1.describe) = .ok "flip|[null:3, null:2]" := by
    decide +kernel
  obtain ⟨built, made, text⟩ := exists_of_map_eq_ok described
  have flip : RespelledStage "flip" "FLIP" :=
    @RespelledStage.name _ _ [] ['f', 'l', 'i', 'p'] ['F', 'L', 'I', 'P'] [] [] rfl rfl nofun
      nofun nofun (List.all_eq_true.mp rfl) rfl nofun
  have colon : ∀ c ∈ [':', '3'].head?, c = ':' := by simp
  have first : RespelledStage "null:3" "Null:3" :=
    @RespelledStage.name _ _ [] ['n', 'u', 'l', 'l'] ['N', 'u', 'l', 'l'] [] [':', '3'] rfl rfl
      nofun nofun nofun (List.all_eq_true.mp rfl) rfl colon
  have read : Descriptor.parseStage " null:2" = .ok ⟨"null", ["2"]⟩ := by decide +kernel
  have members : ∀ item ∈ [("null:3", "Null:3"), (" null:2", " null:2")],
      Respelled item.1 item.2 := by
    rw [List.forall_mem_cons, List.forall_mem_singleton]
    exact ⟨.device first (by decide +kernel), .device (.of_parseStage read) (by decide +kernel)⟩
  have list : Respelled "[null:3, null:2]" "[Null:3, null:2]" :=
    @Respelled.list "" "" _ rfl rfl (by decide +kernel) members
  have respelled : Respelled "flip|[null:3, null:2]" "FLIP|[Null:3, null:2]" :=
    .filter flip (by decide +kernel) list
  exact ⟨built, made, respelled,
    ((registering_is_safe standard).2.2 _ _ _ _ made).2 _ _ respelled, text⟩

end Catalog

end PixelTree
