import PixelTree.Proofs.Build.Filters
import PixelTree.Proofs.Descriptor.Grammar
import PixelTree.Proofs.Kinet.Written

/-! The trees that descriptors build: fresh devices, lists of several such trees, and filters
around them.
-/

namespace PixelTree

open Descriptor (Stage Leaf Pipeline)

/-- The trees that are built with the standard catalog and the given wait between the members
of lists.
-/
inductive Fresh (spacing : Nat) : Node → Prop where
  | null {count : Nat} (word : count < Numeral.wordLimit) : Fresh spacing (Node.ofCount count)
  | ck {address : Kinet.Address} (readable : address.Readable)
    : Fresh spacing (.ck (Kinet.Output.fresh address))
  | list {members : List Node} (several : 2 ≤ members.length)
    (fresh : ∀ member ∈ members, Fresh spacing member)
    : Fresh spacing (Node.ofMembers spacing members)
  | filter {stage : Stage} {inner node : Node} (wraps : Wraps stage inner node)
    (fresh : Fresh spacing inner)
    : Fresh spacing node

-----------------------------------------------------------------------------------------
-- Building in two steps
-----------------------------------------------------------------------------------------

namespace Catalog

variable {catalog : Catalog} {spacing : Nat} {supply supply' : SeedSupply} {node : Node}

/-- What a chain of filters ends in. -/
def buildLeaf (catalog : Catalog) (spacing : Nat) : Leaf → Building Node
  | .device stage => catalog.makeDevice stage
  | .list items => joined spacing <$> items.mapM (catalog.build spacing)

/-- A descriptor is taken apart, and what its filters end in is built before they are applied. -/
theorem build_eq (catalog : Catalog) (spacing : Nat) (descriptor : String)
    : catalog.build spacing descriptor
      = match Descriptor.parse descriptor with
        | .error error => throw (.descriptor error)
        | .ok pipeline =>
          catalog.buildLeaf spacing pipeline.leaf >>= catalog.applyFilters pipeline.filters := by
  rw [build]
  split
  · next error parsed => simp only [parsed]
  · next pipeline parsed =>
      simp only [parsed]
      split
      · next stage leaf => rw [leaf]; rfl
      · next items leaf =>
          rw [leaf, buildLeaf, List.mapM_subtype (g := catalog.build spacing) (by simp),
            List.unattach_attach, map_eq_pure_bind, bind_assoc]

/-- A descriptor builds a tree exactly if it can be taken apart, what its filters end in can be
built, and the filters can be applied to that.
-/
theorem build_eq_ok {descriptor : String}
    : catalog.build spacing descriptor supply = .ok (node, supply')
      ↔ ∃ pipeline core between,
          Descriptor.parse descriptor = .ok pipeline
          ∧ catalog.buildLeaf spacing pipeline.leaf supply = .ok (core, between)
          ∧ catalog.applyFilters pipeline.filters core between = .ok (node, supply') := by
  rw [build_eq]
  cases parsed : Descriptor.parse descriptor with
  | error error =>
      constructor
      · intro built
        cases built
      · rintro ⟨pipeline, core, between, impossible, _⟩
        cases impossible
  | ok pipeline =>
      rw [bind_eq_ok]
      constructor
      · rintro ⟨core, between, leaf, filters⟩
        exact ⟨pipeline, core, between, rfl, leaf, filters⟩
      · rintro ⟨found, core, between, same, leaf, filters⟩
        obtain rfl := Except.ok.inj same
        exact ⟨core, between, leaf, filters⟩

/-- The innermost filters are applied first, and the outermost one to their result. -/
theorem applyFilters_cons_eq_ok {stage : Stage} {filters : List Stage} {core : Node}
    : catalog.applyFilters (stage :: filters) core supply = .ok (node, supply')
      ↔ ∃ inner between,
          catalog.applyFilters filters core supply = .ok (inner, between)
          ∧ catalog.applyFilter stage inner between = .ok (node, supply') := by
  rw [applyFilters, List.foldrM_cons, bind_eq_ok]
  rfl

/-- A list is built from its members, and a single member stands for itself. -/
theorem buildLeaf_list_eq_ok {items : List String}
    : catalog.buildLeaf spacing (.list items) supply = .ok (node, supply')
      ↔ ∃ members,
          items.mapM (catalog.build spacing) supply = .ok (members, supply')
          ∧ node = joined spacing members := by
  rw [buildLeaf, map_eq_pure_bind, bind_eq_ok]
  constructor
  · rintro ⟨members, between, built, last⟩
    obtain ⟨rfl, rfl⟩ := pure_eq_ok.mp last
    exact ⟨members, built, rfl⟩
  · rintro ⟨members, built, rfl⟩
    exact ⟨members, supply', built, rfl⟩

/-- The members of a list are built one after the other. -/
theorem mapM_cons_eq_ok {α β ε σ : Type} {f : α → StateT σ (Except ε) β} {a : α} {rest : List α}
    {results : List β} {state state' : σ}
    : (a :: rest).mapM f state = .ok (results, state')
      ↔ ∃ first others between,
          f a state = .ok (first, between)
          ∧ rest.mapM f between = .ok (others, state')
          ∧ results = first :: others := by
  rw [List.mapM_cons, bind_eq_ok]
  constructor
  · rintro ⟨first, between, head, last⟩
    obtain ⟨others, after, tail, last⟩ := bind_eq_ok.mp last
    obtain ⟨rfl, rfl⟩ := pure_eq_ok.mp last
    exact ⟨first, others, between, head, tail, rfl⟩
  · rintro ⟨first, others, between, head, tail, rfl⟩
    exact ⟨first, between, head, bind_eq_ok.mpr ⟨others, state', tail, rfl⟩⟩

/-- Every result of a row of programs is the result of one of them, and there are as many results
as programs, by induction over the row.
-/
theorem results_of_mapM {α β ε σ : Type} {f : α → StateT σ (Except ε) β} {items : List α}
    {results : List β} {state state' : σ} (done : items.mapM f state = .ok (results, state'))
    : results.length = items.length
      ∧ ∀ result ∈ results, ∃ item ∈ items, ∃ before after,
          f item before = .ok (result, after) := by
  induction items generalizing results state with
  | nil =>
      rw [List.mapM_nil] at done
      obtain ⟨rfl, _⟩ := pure_eq_ok.mp done
      exact ⟨rfl, by simp⟩
  | cons item rest ih =>
      obtain ⟨first, others, between, head, tail, rfl⟩ := mapM_cons_eq_ok.mp done
      obtain ⟨length, each⟩ := ih tail
      refine ⟨by rw [List.length_cons, List.length_cons, length], ?_⟩
      intro result member
      rcases List.mem_cons.mp member with rfl | member
      · exact ⟨item, List.mem_cons_self, state, between, head⟩
      · obtain ⟨other, found, built⟩ := each result member
        exact ⟨other, List.mem_cons_of_mem _ found, built⟩

/-- If a row of programs succeeds, each of them does from some state, by induction over the
row.
-/
theorem exists_ok_of_mapM {α β ε σ : Type} {f : α → StateT σ (Except ε) β}
    {items : List α} {results : List β} {state state' : σ}
    (done : items.mapM f state = .ok (results, state'))
    : ∀ item ∈ items, ∃ before result, f item before = .ok result := by
  induction items generalizing results state with
  | nil => simp
  | cons first rest ih =>
      obtain ⟨value, others, between, head, tail, _⟩ := mapM_cons_eq_ok.mp done
      intro item member
      rcases List.mem_cons.mp member with rfl | member
      · exact ⟨state, _, head⟩
      · exact ih tail item member

end Catalog

-----------------------------------------------------------------------------------------
-- Whatever is built is fresh
-----------------------------------------------------------------------------------------

/-- A stage with the name of a device type calls the maker of that type. -/
theorem Catalog.makeDevice_eq_ok {catalog : Catalog} {name : String} {args : List String}
    {make : List String → Making Node} {supply : SeedSupply} {result : Node × SeedSupply}
    (found : (catalog.find? name).map Entry.maker = some (.device make))
    : catalog.makeDevice ⟨name, args⟩ supply = .ok result ↔ make args supply = .ok result := by
  obtain ⟨entry, entered, device⟩ := Option.map_eq_some_iff.mp found
  simp only [makeDevice, entered, device, Building.ofMaking]
  cases make args supply with
  | error fault => simp [Except.mapError]
  | ok found => simp [Except.mapError]

variable {spacing : Nat} {supply supply' : SeedSupply} {node : Node}

/-- A device without hardware has a word for its number of pixels. -/
theorem Standard.null_fresh {args : List String}
    (made : Standard.null args supply = .ok (node, supply'))
    : Fresh spacing node := by
  unfold Standard.null at made
  split at made
  · next count =>
      obtain ⟨n, _, read, last⟩ := bind_eq_ok.mp made
      obtain ⟨rfl, _⟩ := pure_eq_ok.mp last
      cases word : Numeral.word? (Text.trim count) with
      | none => rw [word] at read; cases read
      | some m =>
          rw [word] at read
          obtain ⟨rfl, _⟩ := pure_eq_ok.mp read
          exact .null (Numeral.lt_of_word? word)
  · cases made

/-- A string of lights has an address that was read. -/
theorem Standard.ck_fresh {args : List String}
    (made : Standard.ck args supply = .ok (node, supply'))
    : Fresh spacing node := by
  unfold Standard.ck at made
  split at made
  · next text =>
      obtain ⟨address, _, read, last⟩ := bind_eq_ok.mp made
      obtain ⟨rfl, _⟩ := pure_eq_ok.mp last
      have read := (lift_eq_ok.mp read).1
      cases parsed : Kinet.Address.parse text with
      | error error => rw [parsed] at read; cases read
      | ok found =>
          rw [parsed] at read
          cases read
          exact .ck (Kinet.Address.readable_of_parse parsed)
  · cases made

/-- A device of the standard catalog is fresh. -/
theorem fresh_of_makeDevice {stage : Stage}
    (made : Catalog.standard.makeDevice stage supply = .ok (node, supply'))
    : Fresh spacing node := by
  obtain ⟨name, args⟩ := stage
  cases found : Catalog.standard.find? name with
  | none =>
      simp only [Catalog.makeDevice, found] at made
      cases made
  | some entry =>
      have maker := Catalog.maker_of_mem_standard (List.mem_of_find?_eq_some found)
      cases device : entry.maker with
      | filter wrap =>
          simp only [Catalog.makeDevice, found, device] at made
          cases made
      | device make =>
          have called := (Catalog.makeDevice_eq_ok (by rw [found, Option.map_some, device])).mp
            made
          simp only [device, List.mem_cons, List.not_mem_nil, or_false, reduceCtorEq,
            Maker.device.injEq] at maker
          rcases maker with rfl | rfl
          · exact Standard.null_fresh called
          · exact Standard.ck_fresh called

/-- Filters keep a tree fresh, by induction over them. -/
theorem Fresh.applyFilters {filters : List Stage} {core : Node} (fresh : Fresh spacing core)
    (applied : Catalog.standard.applyFilters filters core supply = .ok (node, supply'))
    : Fresh spacing node := by
  induction filters generalizing node supply' with
  | nil =>
      obtain ⟨rfl, _⟩ := pure_eq_ok.mp applied
      exact fresh
  | cons stage rest ih =>
      obtain ⟨inner, between, earlier, last⟩ := Catalog.applyFilters_cons_eq_ok.mp applied
      obtain ⟨written, wraps⟩ := exists_wraps_of_applyFilter last
      exact .filter wraps (ih earlier)

/-- Every tree that is built is fresh, by induction over the length of its descriptor: the
members of a list have shorter ones.
-/
theorem fresh_of_build {descriptor : String}
    (built : Catalog.standard.build spacing descriptor supply = .ok (node, supply'))
    : Fresh spacing node := by
  induction length : descriptor.length using Nat.strong_induction_on
    generalizing descriptor node supply supply' with
  | h n ih =>
      obtain ⟨⟨filters, leaf⟩, core, between, parsed, made, applied⟩ :=
        Catalog.build_eq_ok.mp built
      refine Fresh.applyFilters ?_ applied
      cases leaf with
      | device stage => exact fresh_of_makeDevice made
      | list items =>
          obtain ⟨members, each, rfl⟩ := Catalog.buildLeaf_list_eq_ok.mp made
          obtain ⟨count, results⟩ := Catalog.results_of_mapM each
          have fresh : ∀ member ∈ members, Fresh spacing member := by
            intro member found
            obtain ⟨item, inItems, before, after, itemBuilt⟩ := results member found
            have shorter := Descriptor.length_lt_of_parse parsed rfl item inItems
            exact ih item.length (by omega) itemBuilt rfl
          have printable := (Descriptor.printable_of_parse parsed).leaf
          have nonempty := List.length_pos_iff.mpr printable.nonempty
          match members, fresh, count with
          | [], _, count => simp only [List.length_nil] at count; omega
          | [member], fresh, _ => exact fresh member List.mem_cons_self
          | first :: second :: others, fresh, _ => exact .list (by simp) fresh

/-- A tree that is built is fresh. -/
theorem fresh_of_buildTree {seeds : SeedSupply} {descriptor : String}
    (built : buildTree Catalog.standard spacing seeds descriptor = .ok node)
    : Fresh spacing node := by
  obtain ⟨⟨found, rest⟩, made, rfl⟩ := exists_of_map_eq_ok built
  exact fresh_of_build made

end PixelTree
