import Mathlib.Data.String.Basic
import PixelTree.Proofs.Build.Composition
import PixelTree.Proofs.Descriptor.Spelling

/-! How deep building goes. The members of a list are cut out of its text and lack its brackets, so
that each call of the builder inside another one is about a text that is at least two bytes shorter.
-/

namespace PixelTree

-----------------------------------------------------------------------------------------
-- Parts of a descriptor
-----------------------------------------------------------------------------------------

namespace Text

theorem trimChars_sublist (cs : List Char) : (trimChars cs).Sublist cs := by
  obtain ⟨front, back, whole, _, _⟩ := exists_blank_ends cs
  have inside : trimChars cs <:+: cs := ⟨front, back, by rw [List.append_assoc]; exact whole.symm⟩
  exact inside.sublist

end Text

namespace Descriptor

/-- A text with others between its parts has every part in it. -/
theorem sublist_intercalate {separator : List Char} {parts : List (List Char)} {part : List Char}
    (member : part ∈ parts)
    : part.Sublist (separator.intercalate parts) := by
  induction parts with
  | nil => cases member
  | cons first rest ih =>
      cases rest with
      | nil =>
          obtain rfl := List.mem_singleton.mp member
          rw [List.intercalate_singleton]
      | cons second others =>
          rw [List.intercalate_cons_cons]
          rcases List.mem_cons.mp member with rfl | later
          · rw [List.append_assoc]
            exact List.sublist_append_left _ _
          · exact (ih later).trans (List.sublist_append_right _ _)

/-- A token is what is left of its text when delimiters, blanks and other tokens are taken out. -/
theorem sublist_of_splitIn {context input : String} {delimiter : Char} {tokens : List String}
    (plain : Nesting.isStructural delimiter = false)
    (split : splitIn context delimiter input = .ok tokens)
    : ∀ token ∈ tokens, token.toList.Sublist input.toList := by
  obtain ⟨piece, pieces, _, cuts, rfl⟩ := exists_pieces_of_splitIn split
  obtain ⟨chars, _⟩ := (cut_eq_ok plain).mp cuts
  intro token member
  obtain ⟨p, found, rfl⟩ := List.mem_map.mp member
  rw [String.toList_ofList, chars]
  exact (Text.trimChars_sublist p).trans (sublist_intercalate found)

/-- The brackets of a list belong to none of its members. -/
theorem sublist_of_parseLeaf {text : String} {items : List String}
    (read : parseLeaf text = .ok (.list items))
    : ∀ item ∈ items, ("[" ++ item ++ "]").toList.Sublist text.toList := by
  by_cases bracket : text.toList.head? = some '['
  · obtain ⟨inside, rfl⟩ := exists_inside read bracket
    rw [parseLeaf_list] at read
    cases found : parseList "device list" inside with
    | error error =>
        rw [found] at read
        cases read
    | ok others =>
        rw [found] at read
        cases read
        intro item member
        have part := sublist_of_splitIn (by decide) found item member
        simp only [String.toList_append]
        exact (part.append_left _).append_right _
  · rw [parseLeaf_of_head? bracket] at read
    cases found : parseStage text with
    | error error =>
        rw [found] at read
        cases read
    | ok stage =>
        rw [found] at read
        cases read

/-- The members of the list that a descriptor ends in are left of it, each with its brackets. -/
theorem sublist_of_parse {descriptor : String} {pipeline : Pipeline} {items : List String}
    (parsed : parse descriptor = .ok pipeline) (leaf : pipeline.leaf = .list items)
    : ∀ item ∈ items, ("[" ++ item ++ "]").toList.Sublist descriptor.toList := by
  obtain ⟨segments, split, _, last, read⟩ := parse_eq_ok.mp parsed
  rw [leaf] at read
  intro item member
  have inLeaf := sublist_of_parseLeaf read item member
  cases found : segments.getLast? with
  | none => exact absurd (by rw [found]; rfl) last
  | some text =>
      rw [found] at inLeaf
      exact inLeaf.trans
        (sublist_of_splitIn (by decide) split text (List.mem_of_getLast? found))

/-- Every member of the list that a descriptor ends in is at least two bytes shorter than the
descriptor.
-/
theorem utf8ByteSize_le_of_parse {descriptor : String} {pipeline : Pipeline} {items : List String}
    (parsed : parse descriptor = .ok pipeline) (leaf : pipeline.leaf = .list items)
    : ∀ item ∈ items, item.utf8ByteSize + 2 ≤ descriptor.utf8ByteSize := by
  intro item member
  have bytes := String.utf8Len_le_of_sublist (sublist_of_parse parsed leaf item member)
  rw [String.utf8Len_toList, String.utf8Len_toList, String.utf8ByteSize_append,
    String.utf8ByteSize_append] at bytes
  have opening : "[".utf8ByteSize = 1 := rfl
  have closing : "]".utf8ByteSize = 1 := rfl
  omega

-----------------------------------------------------------------------------------------
-- Descriptors inside each other
-----------------------------------------------------------------------------------------

/-- A descriptor that ends in a list opens into the members, each of which is built by a call inside
its own.
-/
def Opens (descriptor item : String) : Prop :=
  ∃ pipeline items, parse descriptor = .ok pipeline ∧ pipeline.leaf = .list items ∧ item ∈ items

/-- At most half as many descriptors are inside each other as the outermost has bytes, by induction
over the row of them.
-/
theorem length_le_of_opens {descriptor : String} {row : List String}
    (inward : List.IsChain Opens (descriptor :: row))
    : 2 * row.length ≤ descriptor.utf8ByteSize := by
  induction row generalizing descriptor with
  | nil => exact Nat.zero_le _
  | cons item rest ih =>
      obtain ⟨⟨pipeline, items, parsed, leaf, member⟩, others⟩ := List.isChain_cons_cons.mp inward
      have shorter := utf8ByteSize_le_of_parse parsed leaf item member
      have inside := ih others
      rw [List.length_cons]
      omega

end Descriptor

open Descriptor (Opens)

-----------------------------------------------------------------------------------------
-- Building with a bounded depth
-----------------------------------------------------------------------------------------

/-- Why a builder with a bounded depth stops. -/
inductive Halt where
  | fault (error : BuildError)
  /-- A call would be inside more others than it may be. -/
  | tooDeep

/-- Building with a bounded depth. -/
abbrev BoundedBuilding := StateT SeedSupply (Except Halt)

/-- Building that makes no calls of its own. -/
def BoundedBuilding.of {α : Type} (building : Building α) : BoundedBuilding α :=
  fun supply => (building supply).mapError .fault

namespace Catalog

/-- Builds a descriptor as the builder does, and calls for its members what is given. -/
def buildCalling (catalog : Catalog) (spacing : Nat) (call : String → BoundedBuilding Node)
    (descriptor : String)
    : BoundedBuilding Node :=
  match Descriptor.parse descriptor with
  | .error error => throw (.fault (.descriptor error))
  | .ok pipeline => do
    let node ←
      match pipeline.leaf with
      | .device stage => .of (catalog.makeDevice stage)
      | .list items => joined spacing <$> items.mapM call
    .of (catalog.applyFilters pipeline.filters node)

/-- Builds a descriptor with no call inside more than a number of others. -/
def buildWithin (catalog : Catalog) (spacing : Nat) : Nat → String → BoundedBuilding Node
  | 0 => catalog.buildCalling spacing (fun _ => throw .tooDeep)
  | depth + 1 => catalog.buildCalling spacing (catalog.buildWithin spacing depth)

end Catalog

namespace BoundedBuilding

variable {α β : Type}

theorem of_bind (building : Building α) (next : α → Building β)
    : of (building >>= next) = of building >>= fun a => of (next a) := by
  funext supply
  change ((building supply).bind _).mapError _ = ((building supply).mapError _).bind _
  cases building supply with
  | error error => rfl
  | ok found => rfl

/-- A row of calls does what the row of the builder's calls does if each call does. -/
theorem mapM_of {call : α → BoundedBuilding β} {building : α → Building β} {items : List α}
    (each : ∀ item ∈ items, call item = of (building item))
    : items.mapM call = of (items.mapM building) := by
  induction items with
  | nil => rfl
  | cons item rest ih =>
      obtain ⟨first, others⟩ := List.forall_mem_cons.mp each
      rw [List.mapM_cons, List.mapM_cons, first, ih others, of_bind]
      simp only [of_bind]
      rfl

end BoundedBuilding

namespace Catalog

variable {catalog : Catalog} {spacing : Nat}

theorem buildCalling_eq {call : String → BoundedBuilding Node} {descriptor : String}
    (each : ∀ item, Opens descriptor item → call item = .of (catalog.build spacing item))
    : catalog.buildCalling spacing call descriptor = .of (catalog.build spacing descriptor) := by
  rw [buildCalling, build_eq]
  cases parsed : Descriptor.parse descriptor with
  | error error => rfl
  | ok pipeline =>
      simp only
      rw [BoundedBuilding.of_bind]
      cases leaf : pipeline.leaf with
      | device stage => rfl
      | list items =>
          have members := BoundedBuilding.mapM_of
            (fun item member => each item ⟨pipeline, items, parsed, leaf, member⟩)
          rw [buildLeaf, map_eq_pure_bind, BoundedBuilding.of_bind, ← members]
          simp only [map_eq_pure_bind]
          rfl

/-- Where no row of calls inside each other is longer than the bound, the bound is never reached. By
induction over the bound: one call less may be inside each member's.
-/
theorem buildWithin_eq {depth : Nat} {descriptor : String}
    (bounded : ∀ row, List.IsChain Opens (descriptor :: row) → row.length ≤ depth)
    : catalog.buildWithin spacing depth descriptor = .of (catalog.build spacing descriptor) := by
  induction depth generalizing descriptor with
  | zero =>
      refine buildCalling_eq (fun item opens => ?_)
      have one := bounded [item] (List.isChain_cons_cons.mpr ⟨opens, .singleton item⟩)
      exact absurd one (by simp)
  | succ depth ih =>
      refine buildCalling_eq (fun item opens => ih (fun row inward => ?_))
      have longer := bounded (item :: row) (List.isChain_cons_cons.mpr ⟨opens, inward⟩)
      rw [List.length_cons] at longer
      omega

/-- Building ends on every text. The members of a list are at least two bytes shorter than the
descriptor, calls inside each other are at most half as many as it has bytes, and with that bound on
its depth the builder does what it does without one.
-/
theorem building_ends (catalog : Catalog) (spacing : Nat) (descriptor : String)
    : (∀ pipeline items,
        Descriptor.parse descriptor = .ok pipeline →
          pipeline.leaf = .list items →
            ∀ item ∈ items, item.utf8ByteSize + 2 ≤ descriptor.utf8ByteSize)
      ∧ (∀ row,
          List.IsChain Opens (descriptor :: row) → row.length ≤ descriptor.utf8ByteSize / 2)
      ∧ catalog.buildWithin spacing (descriptor.utf8ByteSize / 2) descriptor
        = .of (catalog.build spacing descriptor) := by
  have bounded (row : List String) (inward : List.IsChain Opens (descriptor :: row))
      : row.length ≤ descriptor.utf8ByteSize / 2 := by
    have bytes := Descriptor.length_le_of_opens inward
    omega
  exact ⟨fun _ _ => Descriptor.utf8ByteSize_le_of_parse, bounded, buildWithin_eq bounded⟩

/-- A device in a list in a list is built two calls inside the first one, and one is too few. -/
theorem building_ends_of_nested
    : List.IsChain Opens ["[[null:1]]", "[null:1]", "null:1"]
      ∧ 2 ≤ "[[null:1]]".utf8ByteSize / 2
      ∧ "null:1".utf8ByteSize + 2 ≤ "[null:1]".utf8ByteSize
      ∧ Catalog.standard.buildWithin 0 1 "[[null:1]]" ⟨fun _ => 0⟩ = .error .tooDeep := by
  have outer : Descriptor.parse "[[null:1]]" = .ok ⟨[], .list ["[null:1]"]⟩ := rfl
  have inner : Descriptor.parse "[null:1]" = .ok ⟨[], .list ["null:1"]⟩ := rfl
  have inward : List.IsChain Opens ["[[null:1]]", "[null:1]", "null:1"] :=
    .cons_cons ⟨_, _, outer, rfl, List.mem_cons_self⟩
      (.cons_cons ⟨_, _, inner, rfl, List.mem_cons_self⟩ (.singleton _))
  obtain ⟨_, bounded, _⟩ := building_ends Catalog.standard 0 "[[null:1]]"
  obtain ⟨shorter, _, _⟩ := building_ends Catalog.standard 0 "[null:1]"
  refine ⟨inward, bounded _ inward, shorter _ _ inner rfl _ List.mem_cons_self, ?_⟩
  rw [buildWithin, buildCalling, outer, buildWithin]
  simp only [List.mapM_cons, buildCalling, inner]
  rfl

end Catalog

end PixelTree
