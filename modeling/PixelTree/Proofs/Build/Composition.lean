import PixelTree.Proofs.Build.Fresh

/-! Building is compositional.
A stage in front of a bar applies its filter to what the text behind the bar builds, and a list
joins what its members build, one after the other from the supply of seeds.
-/

namespace PixelTree

open Descriptor (Stage Leaf Pipeline Whole Nested)
open Text (Tidy)

-----------------------------------------------------------------------------------------
-- Parts of descriptors
-----------------------------------------------------------------------------------------

namespace Catalog

variable {catalog : Catalog} {spacing : Nat} {supply supply' : SeedSupply} {node : Node}

/-- The blanks at the ends of a descriptor do not count. -/
theorem build_trim_eq_ok {descriptor : String}
    : catalog.build spacing (Text.trim descriptor) supply = .ok (node, supply')
      ↔ catalog.build spacing descriptor supply = .ok (node, supply') := by
  simp only [build_eq_ok, Descriptor.parse_trim_eq_ok]

/-- A text that builds a tree is not blank. -/
theorem not_isAllBlank_of_build {descriptor : String}
    (built : catalog.build spacing descriptor supply = .ok (node, supply'))
    : Text.isAllBlank descriptor.toList = false := by
  obtain ⟨_, _, _, parsed, _⟩ := build_eq_ok.mp built
  exact Descriptor.not_isAllBlank_of_parse parsed

/-- A text that no bar cuts and that does not start with a bracket builds the device of a stage. -/
theorem build_device_eq_ok {text : String} (whole : Whole '|' text.toList)
    (device : (Text.trimChars text.toList).head? ≠ some '[')
    : catalog.build spacing text supply = .ok (node, supply')
      ↔ ∃ stage,
          Descriptor.parseStage text = .ok stage
          ∧ catalog.makeDevice stage supply = .ok (node, supply') := by
  have trimmed : (Text.trim text).toList = Text.trimChars text.toList := String.toList_ofList
  have stage (stage : Stage)
      : Descriptor.parseStage text = .ok stage
        ↔ Descriptor.parseStage (Text.trim text) = .ok stage :=
    Descriptor.parseStage_trim_eq_ok.symm
  rw [← build_trim_eq_ok]
  simp only [stage]
  cases blank : Text.isAllBlank text.toList with
  | true =>
      have empty : Text.trim text = "" := by
        rw [← String.toList_eq_nil_iff, trimmed]
        exact Text.trimChars_append_right (List.all_eq_true.mp blank) []
      rw [empty]
      constructor
      · intro built
        cases not_isAllBlank_of_build built
      · rintro ⟨stage, read, _⟩
        cases read
  | false =>
      have parsed : Descriptor.parse (Text.trim text)
          = (Leaf.device <$> Descriptor.parseStage (Text.trim text)).map (Pipeline.mk []) := by
        rw [← trimmed] at device
        rw [Descriptor.parse_of_whole (by rw [trimmed]; exact Text.tidy_trimChars blank)
          (by rw [trimmed]; exact whole.trimChars), Descriptor.parseLeaf_of_head? device]
      rw [build_eq_ok, parsed]
      cases Descriptor.parseStage (Text.trim text) with
      | error error =>
          constructor
          · rintro ⟨_, _, _, impossible, _⟩
            cases impossible
          · rintro ⟨_, impossible, _⟩
            cases impossible
      | ok stage =>
          constructor
          · rintro ⟨_, core, between, found, made, applied⟩
            obtain rfl := Except.ok.inj found
            obtain ⟨rfl, rfl⟩ := pure_eq_ok.mp applied
            exact ⟨stage, rfl, made⟩
          · rintro ⟨_, found, made⟩
            obtain rfl := Except.ok.inj found
            exact ⟨_, node, supply', rfl, made, rfl⟩

/-- A stage that stands alone builds its device. -/
theorem build_stage {stage : Stage} (formed : stage.WellFormed)
    : catalog.build spacing stage.display supply = .ok (node, supply')
      ↔ catalog.makeDevice stage supply = .ok (node, supply') := by
  have device : (Text.trimChars stage.display.toList).head? ≠ some '[' := by
    rw [formed.tidy_display.trimChars_eq]
    exact formed.head?_display
  rw [build_device_eq_ok formed.whole_display device, formed.parseStage_display]
  simp

/-- A stage in front of a descriptor applies its filter to what the descriptor builds, and fails
as the filter does.
-/
theorem build_cons_eq {front : String} {stage : Stage}
    (read : Descriptor.parseStage front = .ok stage) (whole : Whole '|' front.toList)
    {descriptor : String} {inner : Node} {between : SeedSupply}
    (built : catalog.build spacing descriptor supply = .ok (inner, between))
    : catalog.build spacing (front ++ "|" ++ descriptor) supply
      = catalog.applyFilter stage inner between := by
  obtain ⟨rest, core, start, parsed, made, earlier⟩ := build_eq_ok.mp built
  have longer := (Descriptor.parse_cons_eq_ok whole).mpr ⟨stage, rest, read, parsed, rfl⟩
  have filters : catalog.applyFilters (stage :: rest.filters) core start
      = catalog.applyFilter stage inner between := by
    rw [applyFilters, List.foldrM_cons]
    change (catalog.applyFilters rest.filters core start).bind _ = _
    rw [earlier]
    rfl
  rw [build_eq, longer]
  change (catalog.buildLeaf spacing rest.leaf supply).bind _ = _
  rw [made]
  exact filters

/-- A text behind a bar builds a tree for the filter in front of the bar. -/
theorem build_cons_eq_ok {front descriptor : String} (whole : Whole '|' front.toList)
    : catalog.build spacing (front ++ "|" ++ descriptor) supply = .ok (node, supply')
      ↔ ∃ stage inner between,
          Descriptor.parseStage front = .ok stage
          ∧ catalog.build spacing descriptor supply = .ok (inner, between)
          ∧ catalog.applyFilter stage inner between = .ok (node, supply') := by
  constructor
  · intro built
    obtain ⟨_, core, start, parsed, made, applied⟩ := build_eq_ok.mp built
    obtain ⟨stage, rest, read, restParsed, rfl⟩ := (Descriptor.parse_cons_eq_ok whole).mp parsed
    obtain ⟨inner, between, earlier, last⟩ := applyFilters_cons_eq_ok.mp applied
    exact ⟨stage, inner, between, read,
      build_eq_ok.mpr ⟨rest, core, start, restParsed, made, earlier⟩, last⟩
  · rintro ⟨stage, inner, between, read, built, last⟩
    rw [build_cons_eq read whole built, last]

theorem build_display_cons {stage : Stage} (formed : stage.WellFormed) {descriptor : String}
    : catalog.build spacing (stage.display ++ "|" ++ descriptor) supply = .ok (node, supply')
      ↔ ∃ inner between,
          catalog.build spacing descriptor supply = .ok (inner, between)
          ∧ catalog.applyFilter stage inner between = .ok (node, supply') := by
  rw [build_cons_eq_ok formed.whole_display, formed.parseStage_display]
  simp

/-- A text in brackets that no bar cuts builds the members that its tokens build. -/
theorem build_brackets {inside : String} (tidy : Tidy ("[" ++ inside ++ "]").toList)
    (whole : Whole '|' ("[" ++ inside ++ "]").toList)
    : catalog.build spacing ("[" ++ inside ++ "]") supply = .ok (node, supply')
      ↔ ∃ items members,
          Descriptor.parseList "device list" inside = .ok items
          ∧ items.mapM (catalog.build spacing) supply = .ok (members, supply')
          ∧ node = joined spacing members := by
  have parsed : Descriptor.parse ("[" ++ inside ++ "]")
      = (Leaf.list <$> Descriptor.parseList "device list" inside).map (Pipeline.mk []) := by
    rw [Descriptor.parse_of_whole tidy whole, Descriptor.parseLeaf_list]
  rw [build_eq_ok, parsed]
  cases Descriptor.parseList "device list" inside with
  | error error =>
      constructor
      · rintro ⟨_, _, _, impossible, _⟩
        cases impossible
      · rintro ⟨_, _, impossible, _⟩
        cases impossible
  | ok items =>
      constructor
      · rintro ⟨_, core, between, found, made, applied⟩
        obtain rfl := Except.ok.inj found
        obtain ⟨rfl, rfl⟩ := pure_eq_ok.mp applied
        obtain ⟨members, each, joins⟩ := buildLeaf_list_eq_ok.mp made
        exact ⟨items, members, rfl, each, joins⟩
      · rintro ⟨_, members, found, each, joins⟩
        obtain rfl := Except.ok.inj found
        exact ⟨⟨[], .list items⟩, node, supply', rfl,
          buildLeaf_list_eq_ok.mpr ⟨members, each, joins⟩, rfl⟩

/-- Trimmed descriptors build what the descriptors build, by induction over the row of them. -/
theorem mapM_build_trim {descriptors : List String} {members : List Node}
    : (descriptors.map Text.trim).mapM (catalog.build spacing) supply = .ok (members, supply')
      ↔ descriptors.mapM (catalog.build spacing) supply = .ok (members, supply') := by
  induction descriptors generalizing supply members with
  | nil => rfl
  | cons descriptor rest ih =>
      rw [List.map_cons, mapM_cons_eq_ok, mapM_cons_eq_ok]
      simp only [build_trim_eq_ok, ih]

/-- A list joins what its members build. -/
theorem build_list {descriptors : List String} {members : List Node}
    (nonempty : descriptors ≠ [])
    (whole : ∀ descriptor ∈ descriptors, Whole ',' descriptor.toList)
    (built : descriptors.mapM (catalog.build spacing) supply = .ok (members, supply'))
    : catalog.build spacing ("[" ++ ", ".intercalate descriptors ++ "]") supply
      = .ok (joined spacing members, supply') := by
  have single : ∀ descriptor, descriptors = [descriptor] →
      Text.isAllBlank descriptor.toList = false := by
    rintro descriptor rfl
    obtain ⟨_, _, _, first, _⟩ := mapM_cons_eq_ok.mp built
    exact not_isAllBlank_of_build first
  have bars := Descriptor.whole_brackets
    (fun descriptor member => (whole descriptor member).balanced) '|'
  rw [build_brackets (Descriptor.tidy_brackets _) bars]
  exact ⟨_, members, Descriptor.parseList_commaBlank nonempty single whole,
    mapM_build_trim.mpr built, rfl⟩

end Catalog

-----------------------------------------------------------------------------------------
-- Whole descriptors
-----------------------------------------------------------------------------------------

/-- What a composed descriptor builds, for every catalog and every supply of seeds: behind a
stage and a bar the filter around the tree, with the faults of the filter; between the brackets of
a list the trees in order with their counts, or the tree itself if there is one.
-/
theorem build_composes (catalog : Catalog) (spacing : Nat) (supply supply' : SeedSupply)
    : (∀ front stage descriptor tree,
        Descriptor.parseStage front = .ok stage →
        Nested ['|'] front.toList →
        catalog.build spacing descriptor supply = .ok (tree, supply') →
        catalog.build spacing (front ++ "|" ++ descriptor) supply
          = catalog.applyFilter stage tree supply')
      ∧ (∀ descriptors trees,
        2 ≤ descriptors.length →
        (∀ descriptor ∈ descriptors, Nested [','] descriptor.toList) →
        descriptors.mapM (catalog.build spacing) supply = .ok (trees, supply') →
        catalog.build spacing ("[" ++ ", ".intercalate descriptors ++ "]") supply
          = .ok (.list spacing (trees.map Node.count) trees, supply'))
      ∧ ∀ descriptor tree,
        Nested [','] descriptor.toList →
        catalog.build spacing descriptor supply = .ok (tree, supply') →
        catalog.build spacing ("[" ++ descriptor ++ "]") supply = .ok (tree, supply') := by
  refine ⟨?_, ?_, ?_⟩
  · intro front stage descriptor tree read nested built
    exact Catalog.build_cons_eq read (nested.whole (Or.inl (by simp))) built
  · intro descriptors trees several nested built
    have nonempty : descriptors ≠ [] := by
      rintro rfl
      exact absurd several (by decide)
    have whole : ∀ descriptor ∈ descriptors, Whole ',' descriptor.toList := by
      intro descriptor member
      exact (nested descriptor member).whole (Or.inl (by simp))
    have count := (Catalog.results_of_mapM built).1
    rw [Catalog.build_list nonempty whole built]
    match trees, count with
    | [], count => simp only [List.length_nil] at count; omega
    | [tree], count => simp only [List.length_singleton] at count; omega
    | first :: second :: others, _ => rfl
  · intro descriptor tree nested built
    have whole : ∀ d ∈ [descriptor], Whole ',' d.toList := by
      simpa using nested.whole (Or.inl (by simp))
    have row : [descriptor].mapM (catalog.build spacing) supply = .ok ([tree], supply') :=
      Catalog.mapM_cons_eq_ok.mpr ⟨tree, [], supply', built, rfl, rfl⟩
    have text : "[" ++ descriptor ++ "]" = "[" ++ ", ".intercalate [descriptor] ++ "]" := by
      rw [String.intercalate_singleton]
    rw [text, Catalog.build_list (by simp) whole row]
    rfl

/-- A strip with a drawn seed behind a stage with a quoted color, alone in a list, and in a list in
front of lights.
-/
theorem build_composes_of_random
    : (∃ strip rest,
        Catalog.standard.build 0 " random | null:3 " ⟨fun _ => 7⟩ = .ok (strip, rest)
        ∧ strip.describe = "random:7|null:3"
        ∧ Catalog.standard.build 0 (" solid : '#f00' " ++ "|" ++ " random | null:3 ") ⟨fun _ => 7⟩
          = Catalog.standard.applyFilter ⟨"solid", ["'#f00'"]⟩ strip rest
        ∧ Catalog.standard.build 0 ("[" ++ " random | null:3 " ++ "]") ⟨fun _ => 7⟩
          = .ok (strip, rest))
      ∧ ∃ trees rest,
        [" random | null:3 ", "ck : 10.0.0.1(2)"].mapM (Catalog.standard.build 0) ⟨fun _ => 7⟩
          = .ok (trees, rest)
        ∧ trees.map Node.describe = ["random:7|null:3", "ck:10.0.0.1(2)"]
        ∧ Catalog.standard.build 0
            ("[" ++ ", ".intercalate [" random | null:3 ", "ck : 10.0.0.1(2)"] ++ "]")
            ⟨fun _ => 7⟩
          = .ok (.list 0 (trees.map Node.count) trees, rest) := by
  constructor
  · have described : (Catalog.standard.build 0 " random | null:3 " ⟨fun _ => 7⟩).map
        (fun result => result.1.describe) = .ok "random:7|null:3" := by
      decide +kernel
    obtain ⟨⟨strip, rest⟩, built, text⟩ := exists_of_map_eq_ok described
    have composes := build_composes Catalog.standard 0 ⟨fun _ => 7⟩ rest
    have read : Descriptor.parseStage " solid : '#f00' " = .ok ⟨"solid", ["'#f00'"]⟩ := by
      decide +kernel
    exact ⟨strip, rest, built, text,
      composes.1 _ _ _ strip read (by decide +kernel) built,
      composes.2.2 _ strip (by decide +kernel) built⟩
  · have described : ([" random | null:3 ", "ck : 10.0.0.1(2)"].mapM
        (Catalog.standard.build 0) ⟨fun _ => 7⟩).map (fun result => result.1.map Node.describe)
          = .ok ["random:7|null:3", "ck:10.0.0.1(2)"] := by
      decide +kernel
    obtain ⟨⟨trees, rest⟩, built, texts⟩ := exists_of_map_eq_ok described
    have nested : ∀ descriptor ∈ [" random | null:3 ", "ck : 10.0.0.1(2)"],
        Nested [','] descriptor.toList := by
      simp only [List.forall_mem_cons, List.not_mem_nil, false_imp_iff, implies_true, and_true]
      decide +kernel
    have composes := build_composes Catalog.standard 0 ⟨fun _ => 7⟩ rest
    exact ⟨trees, rest, built, texts, composes.2.1 _ trees (by decide) nested built⟩

end PixelTree
