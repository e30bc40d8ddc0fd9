import PixelTree.Discovery.Supply
import PixelTree.Proofs.Build.RoundTrip
import PixelTree.Proofs.Node.Leaves

/-! What is discovered can be driven.
The descriptor of the supplies that answered builds a tree whose leaves are their strings of
lights, one after the other.
-/

namespace PixelTree

open Descriptor (Whole)

-----------------------------------------------------------------------------------------
-- Strings of lights
-----------------------------------------------------------------------------------------

namespace Discovery.Supply

theorem held_bounds (count : Nat) : 1 ≤ held count ∧ held count ≤ Kinet.Address.maxCount := by
  have positive : 1 ≤ Kinet.Address.maxCount := by decide
  simp only [held]
  omega

/-- The address of a port can be written down: an output without a number is skipped. -/
theorem readable_of_addressOf? {supply : Supply} {port : Kinet.Port} {address : Kinet.Address}
    (found : supply.addressOf? port = some address)
    : address.Readable := by
  unfold addressOf? at found
  split at found
  · next driven =>
      obtain rfl := Option.some.inj found
      have bounds := held_bounds port.lights.toNat
      exact .output supply.ip (UInt8.lt_iff_toNat_lt.mp driven.2) bounds.1 bounds.2
  · cases found

/-- Whatever a supply reports, its strings of lights can be written down. -/
theorem readable_of_mem_addresses {defaultCount : Nat} {supply : Supply}
    {address : Kinet.Address} (member : address ∈ supply.addresses defaultCount)
    : address.Readable := by
  have stand (ip : Net.Ipv4) : (Kinet.Address.output ip 1 (held defaultCount)).Readable :=
    .output ip (by decide) (held_bounds _).1 (held_bounds _).2
  unfold addresses at member
  split at member
  · obtain rfl := List.mem_singleton.mp member
    split
    · exact .whole supply.ip (held_bounds _).1 (held_bounds _).2
    · exact .whole supply.ip (held_bounds _).1 (held_bounds _).2
  · dsimp only at member
    split at member
    · obtain rfl := List.mem_singleton.mp member
      exact stand supply.ip
    · obtain ⟨port, _, found⟩ := List.mem_filterMap.mp member
      exact readable_of_addressOf? found

/-- Every supply has a string of lights, which may stand in for those it does not report. -/
theorem addresses_ne_nil (defaultCount : Nat) (supply : Supply)
    : supply.addresses defaultCount ≠ [] := by
  unfold addresses
  split
  · simp
  · dsimp only
    split
    · simp
    · next found => simpa using found

end Discovery.Supply

-----------------------------------------------------------------------------------------
-- Trees of strings of lights
-----------------------------------------------------------------------------------------

/-- The leaves of a list are those of its members, and so are those of a member alone. -/
theorem Catalog.leaves_joined (spacing : Nat) (members : List Node)
    : (joined spacing members).leaves = Node.leavesOf members := by
  match members with
  | [] => rfl
  | [member] => simp [joined, Node.leavesOf]
  | first :: second :: others => rfl

theorem Catalog.count_joined (spacing : Nat) (members : List Node)
    : (joined spacing members).count = (members.map Node.count).sum := by
  match members with
  | [] => rfl
  | [member] => simp [joined]
  | first :: second :: others => rfl

/-- The description of several nodes in a row, which is that of a node alone if there is one. -/
theorem Catalog.describe_joined (spacing : Nat) (members : List Node)
    : (joined spacing members).describe
      = match members.map Node.describe with
        | [text] => text
        | texts => "[" ++ ", ".intercalate texts ++ "]" := by
  match members with
  | [] => exact Node.describe_ofMembers spacing []
  | [member] => rfl
  | first :: second :: others => exact Node.describe_ofMembers spacing (first :: second :: others)

theorem Node.leavesOf_map_toNode (leaves : List Leaf)
    : leavesOf (leaves.map Leaf.toNode) = leaves := by
  induction leaves with
  | nil => rfl
  | cons leaf rest ih => simp [leavesOf, ih]

namespace Discovery

/-- The string of lights of an address, before anything was sent to it. -/
def lights (address : Kinet.Address) : Node.Leaf :=
  .ck (Kinet.Output.fresh address)

/-- The tree of several strings of lights. -/
def lightsTree (spacing : Nat) (addresses : List Kinet.Address) : Node :=
  Catalog.joined spacing ((addresses.map lights).map Node.Leaf.toNode)

variable {addresses : List Kinet.Address}

theorem leaves_lightsTree (spacing : Nat) (addresses : List Kinet.Address)
    : (lightsTree spacing addresses).leaves = addresses.map lights := by
  rw [lightsTree, Catalog.leaves_joined, Node.leavesOf_map_toNode]

theorem count_lightsTree (spacing : Nat) (addresses : List Kinet.Address)
    : (lightsTree spacing addresses).count = (addresses.map Kinet.Address.count).sum := by
  rw [lightsTree, Catalog.count_joined, List.map_map, List.map_map]
  refine congrArg List.sum (List.map_congr_left ?_)
  intro address _
  simp [lights, Node.Leaf.strip, Kinet.Output.fresh, Kinet.Output.onPort, Strip.dark, Strip.size]

/-- The descriptor of what was discovered describes the tree of its strings of lights. -/
theorem descriptor?_eq (defaultCount : Nat) (supplies : List Supply) (spacing : Nat)
    : Supply.descriptor? defaultCount supplies
      = if supplies = [] then none
        else
          some (lightsTree spacing
            (supplies.flatMap (Supply.addresses defaultCount))).describe := by
  cases supplies with
  | nil => rfl
  | cons supply rest =>
      have nonempty : ((supply :: rest).flatMap (Supply.addresses defaultCount)).map
          (fun address => "ck:" ++ address.display) ≠ [] := by
        simp [Supply.addresses_ne_nil]
      have stages (addresses : List Kinet.Address)
          : ((addresses.map lights).map Node.Leaf.toNode).map Node.describe
            = addresses.map (fun address => "ck:" ++ address.display) := by
        rw [List.map_map, List.map_map]
        rfl
      rw [if_neg (by simp), lightsTree, Catalog.describe_joined, stages, Supply.descriptor?]
      revert nonempty
      generalize ((supply :: rest).flatMap (Supply.addresses defaultCount)).map
        (fun address => "ck:" ++ address.display) = texts
      intro nonempty
      match texts, nonempty with
      | [text], _ => rfl
      | first :: second :: others, _ => rfl

/-- Strings of lights are built from the description of their tree. -/
theorem build_lightsTree (spacing : Nat) (nonempty : addresses ≠ [])
    (readable : ∀ address ∈ addresses, address.Readable) (supply : SeedSupply)
    : Catalog.standard.build spacing (lightsTree spacing addresses).describe supply
      = .ok (lightsTree spacing addresses, supply) := by
  have each : ∀ member ∈ (addresses.map lights).map Node.Leaf.toNode,
      Whole ',' member.describe.toList
      ∧ Catalog.standard.build spacing member.describe supply = .ok (member, supply) := by
    rw [List.map_map, List.forall_mem_map]
    intro address found
    have fresh : Fresh spacing (lights address).toNode := .ck (readable address found)
    exact ⟨(fresh.isToken_describe id).whole, Fresh.build_ck (readable address found) supply⟩
  have present : (addresses.map lights).map Node.Leaf.toNode ≠ [] := by simpa using nonempty
  rw [lightsTree]
  generalize (addresses.map lights).map Node.Leaf.toNode = members at each present
  match members, present with
  | [member], _ => exact (each member List.mem_cons_self).2
  | first :: second :: others, _ =>
      have row := Fresh.mapM_describe id (fun member found => (each member found).2)
      have whole : ∀ text ∈ (first :: second :: others).map Node.describe,
          Whole ',' text.toList :=
        List.forall_mem_map.mpr (fun member found => (each member found).1)
      rw [Catalog.describe_joined]
      rw [List.map_id] at row
      exact Catalog.build_list (by simp) whole row

/-- What was discovered can be driven, whatever the supplies report and whatever stands in for
what they do not. Without a supply there is no descriptor; with any, the descriptor builds a tree
that is described by it, with the strings of lights of the supplies in order, and each of their
addresses is read back from its text.
-/
theorem descriptor_drives (defaultCount : Nat) (supplies : List Supply)
    : (Supply.descriptor? defaultCount supplies = none ↔ supplies = [])
      ∧ (∀ descriptor,
        Supply.descriptor? defaultCount supplies = some descriptor →
        ∀ spacing seeds,
          ∃ tree,
            buildTree Catalog.standard spacing seeds descriptor = .ok tree
            ∧ tree.describe = descriptor
            ∧ tree.leaves
              = (supplies.flatMap (Supply.addresses defaultCount)).map
                  (fun address => .ck (Kinet.Output.fresh address))
            ∧ tree.count
              = ((supplies.flatMap (Supply.addresses defaultCount)).map
                  Kinet.Address.count).sum)
      ∧ ∀ address ∈ supplies.flatMap (Supply.addresses defaultCount),
        Kinet.Address.parse address.display = .ok address := by
  have readable : ∀ address ∈ supplies.flatMap (Supply.addresses defaultCount),
      address.Readable := by
    intro address found
    obtain ⟨supply, _, member⟩ := List.mem_flatMap.mp found
    exact Supply.readable_of_mem_addresses member
  refine ⟨?_, ?_, fun address found => Kinet.Address.parse_display (readable address found)⟩
  · rw [descriptor?_eq defaultCount supplies 0]
    split <;> simp_all
  · intro descriptor found spacing seeds
    rw [descriptor?_eq defaultCount supplies spacing] at found
    split at found
    · cases found
    · next some =>
        obtain rfl := Option.some.inj found
        obtain ⟨supply, rest, rfl⟩ := List.exists_cons_of_ne_nil some
        have nonempty : (supply :: rest).flatMap (Supply.addresses defaultCount) ≠ [] := by
          simp [Supply.addresses_ne_nil]
        refine ⟨_, ?_, rfl, leaves_lightsTree spacing _, count_lightsTree spacing _⟩
        rw [buildTree, build_lightsTree spacing nonempty readable]
        rfl

/-- A supply of the first version with more lights than a text may name, and one of the second
with an output 0, an output without lights and one that is reported twice.
-/
def unevenSupplies : List Supply :=
  [ { ip := ⟨10, 0, 0, 1⟩, mac := "", kinetVersion := 1, serial := 7, dmxUniverse := 3, name := "",
      info := "", ports := [⟨1, 0, 200⟩, ⟨2, 0, 100⟩] },
    { ip := ⟨10, 0, 0, 2⟩, mac := "", kinetVersion := 2, serial := 8, dmxUniverse := 0, name := "",
      info := "", ports := [⟨0, 0, 5⟩, ⟨1, 0, 65535⟩, ⟨2, 0, 0⟩, ⟨1, 0, 9⟩] } ]

theorem descriptor_drives_unevenSupplies
    : Supply.descriptor? 0 unevenSupplies
        = some "[ck:10.0.0.1(256), ck:10.0.0.2/1(256), ck:10.0.0.2/1(9)]"
      ∧ (∃ tree,
        buildTree Catalog.standard 0 ⟨fun _ => 7⟩
            "[ck:10.0.0.1(256), ck:10.0.0.2/1(256), ck:10.0.0.2/1(9)]"
          = .ok tree
        ∧ tree.describe = "[ck:10.0.0.1(256), ck:10.0.0.2/1(256), ck:10.0.0.2/1(9)]"
        ∧ tree.count = 521)
      ∧ Kinet.Address.parse (Kinet.Address.whole ⟨10, 0, 0, 1⟩ 256).display
        = .ok (Kinet.Address.whole ⟨10, 0, 0, 1⟩ 256) := by
  have found : Supply.descriptor? 0 unevenSupplies
      = some "[ck:10.0.0.1(256), ck:10.0.0.2/1(256), ck:10.0.0.2/1(9)]" := by
    decide +kernel
  have drives := descriptor_drives 0 unevenSupplies
  obtain ⟨tree, built, described, _, count⟩ := drives.2.1 _ found 0 ⟨fun _ => 7⟩
  have sum : ((unevenSupplies.flatMap (Supply.addresses 0)).map Kinet.Address.count).sum = 521 := by
    decide +kernel
  exact ⟨found, ⟨tree, built, described, count.trans sum⟩, drives.2.2 _ (by decide +kernel)⟩

end Discovery

end PixelTree
