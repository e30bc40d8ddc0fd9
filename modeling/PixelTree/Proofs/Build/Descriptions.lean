import PixelTree.Proofs.Build.Fresh
import PixelTree.Proofs.Node.Memory

/-! The descriptions of built trees as texts: each is balanced, and one that comes from a chain
without a second argument has no comma outside its groups.
-/

namespace PixelTree

open Descriptor (Stage Leaf Pipeline Balanced Whole IsToken)
open Text (Tidy)

-----------------------------------------------------------------------------------------
-- Filters that are written with commas
-----------------------------------------------------------------------------------------

namespace Node

/-- The filters in front of the leaf or the list that a node ends in include a bounce, a gradient
or a sparkle. These are the filters that are written with more than one argument.
-/
def HasCommaFilter : Node → Prop
  | .null _ | .ck _ | .tap _ | .list _ _ _ => False
  | .flip inner => inner.HasCommaFilter
  | .remap table inner => table.rule.name = "bounce" ∨ inner.HasCommaFilter
  | .solid _ inner => inner.HasCommaFilter
  | .gradient _ _ _ => True
  | .sparkle _ _ => True
  | .nav _ inner => inner.HasCommaFilter

mutual
/-- No list inside the tree has a member with such a filter. -/
def NoCommaInLists : Node → Prop
  | .null _ | .ck _ | .tap _ => True
  | .list _ _ members => NoCommaInMembers members
  | .flip inner => inner.NoCommaInLists
  | .remap _ inner => inner.NoCommaInLists
  | .solid _ inner => inner.NoCommaInLists
  | .gradient _ _ inner => inner.NoCommaInLists
  | .sparkle _ inner => inner.NoCommaInLists
  | .nav _ inner => inner.NoCommaInLists

/-- No member of a list has such a filter, nor has a member of a list inside of it. -/
def NoCommaInMembers : List Node → Prop
  | [] => True
  | node :: rest => ¬ node.HasCommaFilter ∧ node.NoCommaInLists ∧ NoCommaInMembers rest
end

instance HasCommaFilter.decidable : (node : Node) → Decidable node.HasCommaFilter
  | .null _ | .ck _ | .tap _ | .list _ _ _ => inferInstanceAs (Decidable False)
  | .flip inner | .solid _ inner | .nav _ inner => HasCommaFilter.decidable inner
  | .remap table inner =>
    have := HasCommaFilter.decidable inner
    inferInstanceAs (Decidable (table.rule.name = "bounce" ∨ inner.HasCommaFilter))
  | .gradient _ _ _ | .sparkle _ _ => inferInstanceAs (Decidable True)

mutual
instance NoCommaInLists.decidable : (node : Node) → Decidable node.NoCommaInLists
  | .null _ | .ck _ | .tap _ => inferInstanceAs (Decidable True)
  | .list _ _ members => NoCommaInMembers.decidable members
  | .flip inner | .remap _ inner | .solid _ inner | .gradient _ _ inner | .sparkle _ inner
  | .nav _ inner => NoCommaInLists.decidable inner

instance NoCommaInMembers.decidable : (members : List Node) → Decidable (NoCommaInMembers members)
  | [] => inferInstanceAs (Decidable True)
  | node :: rest =>
    have := NoCommaInLists.decidable node
    have := NoCommaInMembers.decidable rest
    inferInstanceAs
      (Decidable (¬ node.HasCommaFilter ∧ node.NoCommaInLists ∧ NoCommaInMembers rest))
end

theorem noCommaInMembers_iff {members : List Node}
    : NoCommaInMembers members
      ↔ ∀ member ∈ members, ¬ member.HasCommaFilter ∧ member.NoCommaInLists := by
  induction members with
  | nil => simp [NoCommaInMembers]
  | cons node rest ih => simp [NoCommaInMembers, ih, and_assoc]

theorem describeAll_eq_map (members : List Node) : describeAll members = members.map describe := by
  induction members with
  | nil => rfl
  | cons node rest ih => rw [describeAll, ih, List.map_cons]

theorem describe_ofMembers (spacing : Nat) (members : List Node)
    : (ofMembers spacing members).describe
      = "[" ++ ", ".intercalate (members.map describe) ++ "]" := by
  rw [ofMembers, describe, describeAll_eq_map]

end Node

namespace Wraps

variable {stage : Stage} {inner node : Node}

/-- The filters that are written with more than one argument are those with commas. -/
theorem hasCommaFilter_iff (wraps : Wraps stage inner node)
    : node.HasCommaFilter ↔ 2 ≤ stage.args.length ∨ inner.HasCommaFilter := by
  cases wraps with
  | flip => simp [Node.HasCommaFilter]
  | @remap rule _ fits =>
      rw [Node.HasCommaFilter, Remap.Table.rule_initial]
      cases rule <;> simp [Remap.Rule.stage, Remap.Rule.name]
  | solid color => simp [Node.HasCommaFilter]
  | gradient start goal => simp [Node.HasCommaFilter]
  | sparkle color seed _ hon hoff => simp [Node.HasCommaFilter, Node.sparkling]
  | nav _ word => simp [Node.HasCommaFilter]

/-- A filter adds no list. -/
theorem noCommaInLists_iff (wraps : Wraps stage inner node)
    : node.NoCommaInLists ↔ inner.NoCommaInLists := by
  cases wraps with
  | flip => rfl
  | remap fits => rfl
  | solid color => rfl
  | gradient start goal => rfl
  | sparkle color seed _ hon hoff => rfl
  | nav _ word => rfl

theorem pixels_eq (wraps : Wraps stage inner node) : node.pixels = inner.pixels := by
  cases wraps with
  | flip => rfl
  | remap fits => rfl
  | solid color => rfl
  | gradient start goal => rfl
  | sparkle color seed _ hon hoff => rfl
  | nav _ word => rfl

end Wraps

-----------------------------------------------------------------------------------------
-- Texts of descriptions
-----------------------------------------------------------------------------------------

namespace Node

/-- The stage of a device without hardware. -/
def nullStage (count : Nat) : Stage :=
  ⟨"null", [Numeral.decimal count]⟩

/-- The stage of a string of lights. -/
def ckStage (address : Kinet.Address) : Stage :=
  ⟨"ck", [address.display]⟩

theorem describe_ofCount (count : Nat) : (ofCount count).describe = (nullStage count).display := by
  rw [← String.toList_inj, Stage.toList_display]
  simp [ofCount, describe, nullStage, MemoryDevice.fresh, Strip.dark, Strip.size]

theorem describe_fresh (address : Kinet.Address)
    : (Node.ck (Kinet.Output.fresh address)).describe = (ckStage address).display := by
  rw [← String.toList_inj, Stage.toList_display]
  simp [describe, ckStage, Kinet.Output.fresh, Kinet.Output.onPort]

/-- The stage of a device without hardware is read back. -/
theorem nullStage_wellFormed (count : Nat) : (nullStage count).WellFormed where
  named := by
    change "null" ≠ ""
    decide
  nameChars := by
    have chars : "null".toList.all Descriptor.isNameChar = true := by decide
    exact List.all_eq_true.mp chars
  separate := by simpa [nullStage] using (Descriptor.plain_decimal count).isToken (Or.inl rfl)
  unbarred := by
    simpa [nullStage] using ((Descriptor.plain_decimal count).isToken (Or.inr rfl)).whole
  notBlank := by
    intro blank
    have empty := (List.cons.inj blank).1
    exact (Descriptor.plain_decimal count).nonempty (String.toList_eq_nil_iff.mpr empty)

/-- The stage of a string of lights is read back. -/
theorem ckStage_wellFormed (address : Kinet.Address) : (ckStage address).WellFormed where
  named := by
    change "ck" ≠ ""
    decide
  nameChars := by
    have chars : "ck".toList.all Descriptor.isNameChar = true := by decide
    exact List.all_eq_true.mp chars
  separate := by
    have token : IsToken ',' address.display :=
      ⟨address.tidy_display.trimChars_eq, address.whole_display (Or.inl rfl)⟩
    simpa [ckStage] using token
  unbarred := by simpa [ckStage] using address.whole_display (Or.inr rfl)
  notBlank := by
    intro blank
    have empty := (List.cons.inj blank).1
    exact address.tidy_display.ne_nil (String.toList_eq_nil_iff.mpr empty)

end Node

theorem ne_nil_of_several {members : List Node} (several : 2 ≤ members.length)
    : members ≠ [] := by
  rintro rfl
  exact absurd several (by decide)

namespace Fresh

variable {spacing : Nat} {node : Node}

/-- The description of a built tree is tidy and balanced, by induction over the tree. -/
theorem tidy_balanced (fresh : Fresh spacing node)
    : Tidy node.describe.toList ∧ Balanced node.describe.toList := by
  induction fresh with
  | @null count word =>
      have formed := Node.nullStage_wellFormed count
      rw [Node.describe_ofCount]
      exact ⟨formed.tidy_display, formed.whole_display.balanced⟩
  | @ck address readable =>
      have formed := Node.ckStage_wellFormed address
      rw [Node.describe_fresh]
      exact ⟨formed.tidy_display, formed.whole_display.balanced⟩
  | @list members several _ ih =>
      rw [Node.describe_ofMembers]
      exact ⟨Descriptor.tidy_brackets _,
        (Descriptor.whole_brackets
          (List.forall_mem_map.mpr (fun member found => (ih member found).2)) '|').balanced⟩
  | @filter stage inner node wraps _ ih =>
      have formed := wraps.wellFormed
      have bar : Balanced ['|'] := rfl
      rw [wraps.describe_eq, String.toList_append, String.toList_append, List.append_assoc]
      exact ⟨formed.tidy_display.append _ ih.1,
        formed.whole_display.balanced.append (bar.append ih.2)⟩

/-- The description of a list is cut by no separator, for all of it is one group. -/
theorem whole_list {members : List Node} (fresh : ∀ member ∈ members, Fresh spacing member)
    (delimiter : Char)
    : Whole delimiter (Node.ofMembers spacing members).describe.toList := by
  rw [Node.describe_ofMembers]
  exact Descriptor.whole_brackets
    (List.forall_mem_map.mpr (fun member found => (fresh member found).tidy_balanced.2)) delimiter

/-- Without a filter that is written with commas the description of a built tree is one token,
by induction over the filters in front.
-/
theorem isToken_describe (fresh : Fresh spacing node) (plain : ¬ node.HasCommaFilter)
    : IsToken ',' node.describe := by
  refine ⟨fresh.tidy_balanced.1.trimChars_eq, ?_⟩
  induction fresh with
  | @null count word =>
      rw [Node.describe_ofCount]
      exact (Node.nullStage_wellFormed count).whole_comma (by simp [Node.nullStage])
  | @ck address readable =>
      rw [Node.describe_fresh]
      exact (Node.ckStage_wellFormed address).whole_comma (by simp [Node.ckStage])
  | list several fresh ih => exact whole_list fresh ','
  | @filter stage inner node wraps _ ih =>
      have parts := (not_congr wraps.hasCommaFilter_iff).mp plain
      rw [not_or, Nat.not_le] at parts
      have stageWhole := wraps.wellFormed.whole_comma (Nat.le_of_lt_succ parts.1)
      have bar : Whole ',' ['|'] := .singleton (by decide) (by decide)
      rw [wraps.describe_eq, String.toList_append, String.toList_append, List.append_assoc]
      exact stageWhole.append (bar.append (ih parts.2))

end Fresh

end PixelTree
