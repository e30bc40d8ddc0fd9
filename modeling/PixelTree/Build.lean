import PixelTree.Catalog.Basic

/-! Building the tree of a descriptor with the types of a catalog. -/

namespace PixelTree

namespace Building

def ofMaking {α : Type} (name : String) (making : Making α) : Building α :=
  fun supply => (making supply).mapError (BuildError.badArguments name)

end Building

/-- Nanoseconds between the flushes of two members of a list where nothing else is asked for. -/
def defaultSpacing : Nat := Time.perMillisecond

namespace Catalog

def makeDevice (catalog : Catalog) (stage : Descriptor.Stage) : Building Node :=
  match catalog.find? stage.name with
  | none => throw (.unknownType .device stage.name)
  | some entry =>
    match entry.maker with
    | .device make => Building.ofMaking entry.name (make stage.args)
    | .filter _ => throw (.badArguments stage.name .isFilter)

def applyFilter (catalog : Catalog) (stage : Descriptor.Stage) (inner : Node)
    : Building Node :=
  match catalog.find? stage.name with
  | none => throw (.unknownType .filter stage.name)
  | some entry =>
    match entry.maker with
    | .filter wrap => Building.ofMaking entry.name (wrap stage.args inner)
    | .device _ => throw (.badArguments stage.name .isDevice)

/-- Filters around a node, the last of them innermost. -/
def applyFilters (catalog : Catalog) (filters : List Descriptor.Stage) (node : Node)
    : Building Node :=
  filters.foldrM (catalog.applyFilter · ·) node

/-- A list of several members; one member stands for itself. -/
def joined (spacing : Nat) : List Node → Node
  | [node] => node
  | members => Node.ofMembers spacing members

/-- The tree of a descriptor, with the given wait between the members of its lists. What ends a
chain is built first, then its filters from the innermost outwards. -/
def build (catalog : Catalog) (spacing : Nat) (descriptor : String) : Building Node :=
  match _hparse : Descriptor.parse descriptor with
  | .error error => throw (.descriptor error)
  | .ok pipeline => do
    let node ←
      match _hleaf : pipeline.leaf with
      | .device stage => catalog.makeDevice stage
      | .list items => do
        let members ← items.attach.mapM (fun ⟨item, _⟩ => catalog.build spacing item)
        pure (joined spacing members)
    catalog.applyFilters pipeline.filters node
termination_by descriptor.length
decreasing_by
  have hshort := Descriptor.length_lt_of_parse _hparse _hleaf item ‹_›
  omega

end Catalog

/-- Builds the tree of a descriptor from a supply of seeds. -/
def buildTree (catalog : Catalog) (spacing : Nat) (seeds : SeedSupply) (descriptor : String)
    : Except BuildError Node :=
  (catalog.build spacing descriptor seeds).map Prod.fst

end PixelTree
