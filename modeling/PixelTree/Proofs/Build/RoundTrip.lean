import PixelTree.Proofs.Build.Composition
import PixelTree.Proofs.Node.Reachable

/-! Which descriptions of built trees build a tree again, and which tree that is. -/

namespace PixelTree

open Descriptor (Stage Leaf Pipeline Whole IsToken)
open Text (Tidy)

-----------------------------------------------------------------------------------------
-- Descriptions that build
-----------------------------------------------------------------------------------------

namespace Fresh

variable {spacing : Nat} {node : Node}

/-- Members that are built again one by one are built again in a row, by induction over them. -/
theorem mapM_describe {members : List Node} {supply : SeedSupply} (result : Node → Node)
    (each : ∀ member ∈ members,
      Catalog.standard.build spacing member.describe supply = .ok (result member, supply))
    : (members.map Node.describe).mapM (Catalog.standard.build spacing) supply
      = .ok (members.map result, supply) := by
  induction members with
  | nil => rfl
  | cons member rest ih =>
      have head := each member List.mem_cons_self
      have tail := ih (fun m found => each m (List.mem_cons_of_mem _ found))
      exact Catalog.mapM_cons_eq_ok.mpr ⟨_, _, supply, head, tail, rfl⟩

theorem rounded_ofMembers (spacing : Nat) {members : List Node} (several : 2 ≤ members.length)
    : (Node.ofMembers spacing members).rounded
      = Catalog.joined spacing (members.map Node.rounded) := by
  match members, several with
  | first :: second :: others, _ =>
      rw [Node.ofMembers, Node.rounded, Node.roundedAll_eq_map, List.map_cons, List.map_cons]
      simp [Catalog.joined, Node.ofMembers]

/-- The description of a string of lights builds it. -/
theorem build_ck {address : Kinet.Address} (readable : address.Readable) (supply : SeedSupply)
    : Catalog.standard.build spacing (Node.ck (Kinet.Output.fresh address)).describe supply
      = .ok (.ck (Kinet.Output.fresh address), supply) := by
  have entered : (Catalog.standard.find? "ck").map Entry.maker = some (.device Standard.ck) := by
    rfl
  have read := Kinet.Address.parse_display readable
  rw [Node.describe_fresh, Catalog.build_stage (Node.ckStage_wellFormed address)]
  refine (Catalog.makeDevice_eq_ok entered).mpr ?_
  exact bind_eq_ok.mpr ⟨address, supply, lift_eq_ok.mpr ⟨by rw [read]; rfl, rfl⟩, rfl⟩

/-- The description of a built tree without a comma in a member of a list builds the tree with
rounded colors, and draws no seed, by induction over the tree.
-/
theorem build_describe (fresh : Fresh spacing node) (fits : node.FitsMemory)
    (free : node.NoCommaInLists) (supply : SeedSupply)
    : Catalog.standard.build spacing node.describe supply = .ok (node.rounded, supply) := by
  induction fresh with
  | @null count word =>
      have entered : (Catalog.standard.find? "null").map Entry.maker
          = some (.device Standard.null) := by
        rfl
      have read : Numeral.word? (Text.trim (Numeral.decimal count)) = some count := by
        rw [Text.trim_eq_of_tidy (Numeral.tidy_decimal count), Numeral.word?_decimal word]
      rw [Node.describe_ofCount, Catalog.build_stage (Node.nullStage_wellFormed count)]
      refine (Catalog.makeDevice_eq_ok entered).mpr ?_
      exact bind_eq_ok.mpr ⟨count, supply, by rw [read]; rfl, rfl⟩
  | @ck address readable =>
      exact build_ck readable supply
  | @list members several fresh ih =>
      have plain := Node.noCommaInMembers_iff.mp free
      have texts : members.map Node.describe ≠ [] := by
        simpa using ne_nil_of_several several
      have whole : ∀ text ∈ members.map Node.describe, Whole ',' text.toList := by
        intro text found
        obtain ⟨member, inMembers, rfl⟩ := List.mem_map.mp found
        exact ((fresh member inMembers).isToken_describe (plain member inMembers).1).whole
      have each : ∀ member ∈ members,
          Catalog.standard.build spacing member.describe supply
            = .ok (member.rounded, supply) := by
        intro member found
        have part : member.pixels ≤ Node.pixelsOf members := Node.pixels_le_pixelsOf found
        exact ih member found (Nat.lt_of_le_of_lt part fits) (plain member found).2
      rw [Node.describe_ofMembers, Catalog.build_list texts whole (mapM_describe _ each),
        rounded_ofMembers spacing several]
  | @filter stage inner node wraps fresh ih =>
      have innerFits : inner.FitsMemory := by rwa [Node.FitsMemory, ← wraps.pixels_eq]
      have innerCount := Node.count_le_pixels inner (fresh.sound innerFits)
      have small := Nat.le_of_lt (Nat.lt_of_le_of_lt innerCount innerFits)
      rw [wraps.describe_eq, Catalog.build_display_cons wraps.wellFormed]
      exact ⟨inner.rounded, supply, ih innerFits (wraps.noCommaInLists_iff.mp free),
        wraps.applyFilter_rounded small supply⟩

end Fresh

-----------------------------------------------------------------------------------------
-- Descriptions that do not build
-----------------------------------------------------------------------------------------

/-- A text that builds no tree, whatever the seeds. -/
def Unbuildable (spacing : Nat) (descriptor : String) : Prop :=
  ∀ supply result, Catalog.standard.build spacing descriptor supply ≠ .ok result

theorem exists_intercalate_cons (separator first : List Char) (others : List (List Char))
    : ∃ back, separator.intercalate (first :: others) = first ++ back := by
  cases others with
  | nil => exact ⟨[], by simp⟩
  | cons next rest => exact ⟨_, by rw [List.intercalate_cons_cons, List.append_assoc]⟩

namespace Wraps

variable {stage : Stage} {inner node : Node}

/-- The name of the stage of a filter is not that of a device, whatever the arguments. -/
theorem makeDevice_ne_ok (wraps : Wraps stage inner node) (args : List String)
    (supply : SeedSupply) (result : Node × SeedSupply)
    : Catalog.standard.makeDevice ⟨stage.name, args⟩ supply ≠ .ok result := by
  have filters : ∀ name ∈ filterNames,
      (Catalog.standard.find? name).map Entry.kind = some .filter := by
    decide +kernel
  obtain ⟨entry, entered, kind⟩ := Option.map_eq_some_iff.mp (filters _ wraps.name_mem)
  intro made
  cases maker : entry.maker with
  | device make => rw [Entry.kind, maker] at kind; cases kind
  | filter wrap =>
      simp only [Catalog.makeDevice, entered, maker] at made
      cases made

/-- The written stage up to its first comma is one token and builds nothing: it is a filter
without a device after it.
-/
theorem exists_unbuildable_front (wraps : Wraps stage inner node) (spacing : Nat)
    (several : 2 ≤ stage.args.length)
    : ∃ front back,
        stage.display.toList = front.toList ++ ',' :: back
        ∧ Tidy front.toList ∧ Whole ',' front.toList ∧ Unbuildable spacing front := by
  obtain ⟨name, args⟩ := stage
  match args, several with
  | first :: second :: others, _ =>
      have formed := wraps.wellFormed
      have plain := wraps.plain_of_mem_args first List.mem_cons_self
      have single : (⟨name, [first]⟩ : Stage).WellFormed := by
        refine ⟨formed.named, formed.nameChars, ?_, ?_, ?_⟩
        · simpa using plain.isToken (Or.inl rfl)
        · simpa using (plain.isToken (Or.inr rfl)).whole
        · intro blank
          exact plain.nonempty (String.toList_eq_nil_iff.mpr (List.cons.inj blank).1)
      refine ⟨(⟨name, [first]⟩ : Stage).display,
        [','].intercalate ((second :: others).map String.toList), ?_, single.tidy_display,
        single.whole_comma (by simp), ?_⟩
      · simp [Stage.toList_display]
      · rintro supply ⟨built, rest⟩ made
        exact wraps.makeDevice_ne_ok [first] supply _ ((Catalog.build_stage single).mp made)

end Wraps

namespace Fresh

variable {spacing : Nat} {node : Node}

/-- The description of a node that is written with commas has a token in front of the first of
them that builds nothing, by induction over the filters.
-/
theorem exists_unbuildable_front (fresh : Fresh spacing node) (commas : node.HasCommaFilter)
    : ∃ front back,
        node.describe.toList = front.toList ++ ',' :: back
        ∧ Tidy front.toList ∧ Whole ',' front.toList ∧ Unbuildable spacing front := by
  induction fresh with
  | null word => exact commas.elim
  | ck readable => exact commas.elim
  | list several _ ih => exact commas.elim
  | @filter stage inner node wraps _ ih =>
      rcases Nat.lt_or_ge stage.args.length 2 with few | several
      · have innerCommas := (wraps.hasCommaFilter_iff.mp commas).resolve_left (by omega)
        obtain ⟨front, back, chars, tidy, whole, fails⟩ := ih innerCommas
        have formed := wraps.wellFormed
        have bar : Whole ',' ['|'] := .singleton (by decide) (by decide)
        refine ⟨stage.display ++ "|" ++ front, back, ?_, ?_, ?_, ?_⟩
        · rw [wraps.describe_eq]
          simp [String.toList_append, chars]
        · rw [String.toList_append, String.toList_append, List.append_assoc]
          exact formed.tidy_display.append _ tidy
        · rw [String.toList_append, String.toList_append, List.append_assoc]
          exact (formed.whole_comma (Nat.le_of_lt_succ few)).append (bar.append whole)
        · rintro supply ⟨built, rest⟩ made
          obtain ⟨innerNode, between, innerBuilt, _⟩ :=
            (Catalog.build_display_cons formed).mp made
          exact fails supply _ innerBuilt
      · obtain ⟨front, back, chars, tidy, whole, fails⟩ :=
          wraps.exists_unbuildable_front spacing several
        refine ⟨front, back ++ '|' :: inner.describe.toList, ?_, tidy, whole, fails⟩
        rw [wraps.describe_eq]
        simp [String.toList_append, chars]

/-- If a member is written with commas or builds nothing, a token between the brackets of the
list builds nothing, by induction over the members in front of it.
-/
theorem exists_unbuildable_token {members : List Node}
    (fresh : ∀ member ∈ members, Fresh spacing member)
    (bad : ∃ member ∈ members,
      member.HasCommaFilter ∨ Unbuildable spacing member.describe)
    {pieces : List (List Char)}
    (found : Descriptor.tokens ','
      ([',', ' '].intercalate (members.map (fun m => m.describe.toList))) = .ok pieces)
    : ∃ piece ∈ pieces, Unbuildable spacing (String.ofList piece) := by
  induction members generalizing pieces with
  | nil => simp at bad
  | cons member rest ih =>
      have memberFresh := fresh member List.mem_cons_self
      by_cases own : member.HasCommaFilter
      -- The first token ends within the member and builds nothing.
      · obtain ⟨front, back, chars, tidy, whole, fails⟩ :=
          memberFresh.exists_unbuildable_front own
        obtain ⟨others, text⟩ := exists_intercalate_cons [',', ' '] member.describe.toList
          (rest.map (fun m => m.describe.toList))
        rw [List.map_cons, text, chars, List.append_assoc, List.cons_append,
          whole.tokens_append (by decide)] at found
        obtain ⟨later, _, rfl⟩ := exists_of_map_eq_ok found
        refine ⟨_, List.mem_cons_self, ?_⟩
        rwa [tidy.trimChars_eq, String.ofList_toList]
      -- The first token is the whole member.
      · have token := memberFresh.isToken_describe own
        cases rest with
        | nil =>
            have fails : Unbuildable spacing member.describe := by simpa [own] using bad
            rw [List.map_singleton, List.intercalate_singleton, token.whole.tokens_eq] at found
            obtain rfl := Except.ok.inj found
            refine ⟨_, List.mem_cons_self, ?_⟩
            rwa [token.trimmed, String.ofList_toList]
        | cons next others =>
            rw [List.map_cons, List.map_cons, List.intercalate_cons_cons, List.append_assoc,
              List.cons_append, token.whole.tokens_append (by decide), List.cons_append,
              List.nil_append, Descriptor.tokens_cons_of_isBlank (by decide) (by decide)] at found
            obtain ⟨later, laterFound, rfl⟩ := exists_of_map_eq_ok found
            by_cases fails : Unbuildable spacing member.describe
            · refine ⟨_, List.mem_cons_self, ?_⟩
              rwa [token.trimmed, String.ofList_toList]
            · obtain ⟨other, inMembers, otherBad⟩ := bad
              have inRest : other ∈ next :: others := by
                rcases List.mem_cons.mp inMembers with rfl | inRest
                · exact absurd otherBad (by simp [own, fails])
                · exact inRest
              obtain ⟨piece, inLater, pieceFails⟩ :=
                ih (fun m found => fresh m (List.mem_cons_of_mem _ found))
                  ⟨other, inRest, otherBad⟩ laterFound
              exact ⟨piece, List.mem_cons_of_mem _ inLater, pieceFails⟩

/-- The description of a built tree with a comma in a member of a list builds nothing, by
induction over the tree.
-/
theorem unbuildable_describe (fresh : Fresh spacing node) (commas : ¬ node.NoCommaInLists)
    : Unbuildable spacing node.describe := by
  induction fresh with
  | null word => exact absurd trivial commas
  | ck readable => exact absurd trivial commas
  | @list members several fresh ih =>
      have bad : ∃ member ∈ members,
          member.HasCommaFilter ∨ Unbuildable spacing member.describe := by
        by_contra none
        apply commas
        refine Node.noCommaInMembers_iff.mpr ?_
        intro member found
        constructor
        · intro own
          exact none ⟨member, found, Or.inl own⟩
        · by_contra deeper
          exact none ⟨member, found, Or.inr (ih member found deeper)⟩
      have whole := whole_list fresh '|'
      have chars : (", ".intercalate (members.map Node.describe)).toList
          = [',', ' '].intercalate (members.map (fun m => m.describe.toList)) := by
        rw [String.toList_intercalate, List.map_map]
        rfl
      have visible : Text.isAllBlank
          ([',', ' '].intercalate (members.map (fun m => m.describe.toList))) = false := by
        refine Descriptor.not_isAllBlank_intercalate (by decide)
          (by simpa using ne_nil_of_several several) ?_
        intro text single
        have length := congrArg List.length single
        rw [List.length_map, List.length_singleton] at length
        omega
      rintro supply ⟨built, rest⟩ made
      rw [Node.describe_ofMembers] at whole
      rw [Node.describe_ofMembers, Catalog.build_brackets (Descriptor.tidy_brackets _) whole]
        at made
      obtain ⟨items, nodes, read, each, _⟩ := made
      rw [← chars] at visible
      obtain ⟨pieces, split, rfl⟩ := (Descriptor.splitIn_eq_ok visible).mp read
      rw [chars] at split
      obtain ⟨piece, inPieces, fails⟩ := exists_unbuildable_token fresh bad split
      obtain ⟨before, result, itemBuilt⟩ :=
        Catalog.exists_ok_of_mapM each _ (List.mem_map_of_mem inPieces)
      exact fails before result itemBuilt
  | @filter stage inner node wraps fresh ih =>
      have fails := ih (fun free => commas (wraps.noCommaInLists_iff.mpr free))
      rintro supply ⟨built, rest⟩ made
      rw [wraps.describe_eq, Catalog.build_display_cons wraps.wellFormed]
        at made
      obtain ⟨innerNode, between, innerBuilt, _⟩ := made
      exact fails supply _ innerBuilt

end Fresh

-----------------------------------------------------------------------------------------
-- Building twice
-----------------------------------------------------------------------------------------

variable {spacing : Nat} {seeds : SeedSupply} {descriptor : String} {tree : Node}

/-- A fresh tree without a comma in a member of a list is built from its description up to
rounding.
-/
theorem buildTree_describe (fresh : Fresh spacing tree) (fits : tree.FitsMemory)
    (free : tree.NoCommaInLists)
    : buildTree Catalog.standard spacing seeds tree.describe = .ok tree.rounded := by
  rw [buildTree, fresh.build_describe fits free]
  rfl

/-- A fresh tree whose description builds anything has no comma in a member of a list. -/
theorem noCommaInLists_of_buildTree {again : Node} (fresh : Fresh spacing tree)
    (built : buildTree Catalog.standard spacing seeds tree.describe = .ok again)
    : tree.NoCommaInLists := by
  obtain ⟨result, made, _⟩ := exists_of_map_eq_ok built
  by_contra commas
  exact fresh.unbuildable_describe commas seeds result made

/-- The description of a built tree builds a tree with the same description and the same number
of pixels exactly if no list inside has a member with a bounce, a gradient or a sparkle of its
own. The comma of such a filter ends the member when the list is read.
-/
theorem describe_round_trip_iff (seeds' : SeedSupply)
    (built : buildTree Catalog.standard spacing seeds descriptor = .ok tree)
    (fits : tree.FitsMemory)
    : (∃ again,
        buildTree Catalog.standard spacing seeds' tree.describe = .ok again
        ∧ again.describe = tree.describe ∧ again.count = tree.count)
      ↔ tree.NoCommaInLists := by
  have fresh := fresh_of_buildTree built
  constructor
  · rintro ⟨again, rebuilt, _⟩
    exact noCommaInLists_of_buildTree fresh rebuilt
  · intro free
    exact ⟨tree.rounded, buildTree_describe fresh fits free, tree.describe_rounded,
      tree.count_rounded⟩

/-- A list of solid and plain strips is built again with the same description and count. -/
theorem describe_round_trip_of_list
    : ∃ tree again,
        buildTree Catalog.standard 0 ⟨fun _ => 7⟩ "flip|[solid:red|null:3, null:2]" = .ok tree
        ∧ tree.FitsMemory
        ∧ buildTree Catalog.standard 0 ⟨fun _ => 7⟩ tree.describe = .ok again
        ∧ again.describe = tree.describe ∧ again.count = tree.count := by
  have facts : (buildTree Catalog.standard 0 ⟨fun _ => 7⟩ "flip|[solid:red|null:3, null:2]").map
      (fun tree => (tree.pixels, decide tree.NoCommaInLists)) = .ok (5, true) := by
    decide +kernel
  obtain ⟨tree, built, facts⟩ := exists_of_map_eq_ok facts
  obtain ⟨pixels, free⟩ := Prod.mk.inj facts
  have fits : tree.FitsMemory := by
    rw [Node.FitsMemory, pixels]
    decide
  obtain ⟨again, rebuilt⟩ := (describe_round_trip_iff _ built fits).mpr (of_decide_eq_true free)
  exact ⟨tree, again, built, fits, rebuilt⟩

/-- A bounce in a list is described with a comma that the list is cut at. -/
theorem describe_bounce_in_list_not_built
    : ∃ tree,
        buildTree Catalog.standard 0 ⟨fun _ => 7⟩ "[bounce:1|null:3, null:2]" = .ok tree
        ∧ ¬ ∃ again,
          buildTree Catalog.standard 0 ⟨fun _ => 7⟩ tree.describe = .ok again
          ∧ again.describe = tree.describe ∧ again.count = tree.count := by
  have described : (buildTree Catalog.standard 0 ⟨fun _ => 7⟩ "[bounce:1|null:3, null:2]").map
      Node.describe = .ok "[bounce:1,1|null:3, null:2]" := by
    decide +kernel
  have refused : (buildTree Catalog.standard 0 ⟨fun _ => 7⟩ "[bounce:1,1|null:3, null:2]").map
      Node.describe = .error (.badArguments "bounce" .isFilter) := by
    decide +kernel
  obtain ⟨tree, built, text⟩ := exists_of_map_eq_ok described
  refine ⟨tree, built, ?_⟩
  rintro ⟨again, rebuilt, _⟩
  rw [text] at rebuilt
  rw [rebuilt] at refused
  cases refused

/-- The description of a built tree builds a tree exactly if no list inside has a member with a
bounce, a gradient or a sparkle of its own, and it builds no tree but one with the same nodes in
the same places.
-/
theorem rebuilds_iff_and_alike (seeds' : SeedSupply)
    (built : buildTree Catalog.standard spacing seeds descriptor = .ok tree)
    (fits : tree.FitsMemory)
    : ((∃ again, buildTree Catalog.standard spacing seeds' tree.describe = .ok again)
        ↔ tree.NoCommaInLists)
      ∧ ∀ again, buildTree Catalog.standard spacing seeds' tree.describe = .ok again →
        Alike tree again := by
  have fresh := fresh_of_buildTree built
  refine ⟨⟨?_, ?_⟩, ?_⟩
  · rintro ⟨again, rebuilt⟩
    exact noCommaInLists_of_buildTree fresh rebuilt
  · intro free
    exact ⟨tree.rounded, buildTree_describe fresh fits free⟩
  · intro again rebuilt
    have free := noCommaInLists_of_buildTree fresh rebuilt
    rw [buildTree_describe fresh fits free] at rebuilt
    obtain rfl := Except.ok.inj rebuilt
    exact tree.alike_rounded

/-- A sparkle around a list is built again, and the result is the same tree. -/
theorem rebuilds_sparkle_of_list
    : ∃ tree again,
        buildTree Catalog.standard 0 ⟨fun _ => 7⟩ "sparkle:red|[skip:2|null:3, null:2]" = .ok tree
        ∧ tree.FitsMemory
        ∧ buildTree Catalog.standard 0 ⟨fun _ => 8⟩ tree.describe = .ok again
        ∧ Alike tree again := by
  have facts : (buildTree Catalog.standard 0 ⟨fun _ => 7⟩
      "sparkle:red|[skip:2|null:3, null:2]").map
      (fun tree => (tree.pixels, decide tree.NoCommaInLists)) = .ok (5, true) := by
    decide +kernel
  obtain ⟨tree, built, facts⟩ := exists_of_map_eq_ok facts
  obtain ⟨pixels, free⟩ := Prod.mk.inj facts
  have fits : tree.FitsMemory := by
    rw [Node.FitsMemory, pixels]
    decide
  obtain ⟨domain, alike⟩ := rebuilds_iff_and_alike ⟨fun _ => 8⟩ built fits
  obtain ⟨again, rebuilt⟩ := domain.mpr (of_decide_eq_true free)
  exact ⟨tree, again, built, fits, rebuilt, alike again rebuilt⟩

end PixelTree
