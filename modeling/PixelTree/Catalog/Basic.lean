import PixelTree.Color.Parser
import PixelTree.Descriptor.Pipeline
import PixelTree.Node.Basic

/-! Catalogs: the types of devices and filters that descriptors may name, in the order in which
they were entered. The first entry with a name counts; names are compared without regard to the
case of letters.
-/

namespace PixelTree

/-- What a type makes. -/
inductive Kind where
  | device
  | filter
deriving DecidableEq

def Kind.display : Kind → String
  | .device => "device"
  | .filter => "filter"

/-- Why a type cannot be made with some arguments. -/
inductive ArgumentFault where
  | arity (least most found : Nat)
  | bad (what argument : String)
  | color (error : Color.ParseError)
  | rule (fault : Remap.Rule.Fault)
  | oneCount
  | oneAddress (found : Nat)
  | address (error : Kinet.Address.ParseError)
  | rehearsal
  | isFilter
  | isDevice
deriving DecidableEq

def ArgumentFault.message : ArgumentFault → String
  | .arity least most found =>
    let expected :=
      if least = most then Numeral.decimal least
      else s!"{Numeral.decimal least} to {Numeral.decimal most}"
    s!"expected {expected} argument(s), got {Numeral.decimal found}"
  | .bad what argument => s!"bad {what} '{argument}'"
  | .color error => error.message
  | .rule fault => fault.message
  | .oneCount => "expected one argument: count"
  | .oneAddress found => s!"expected one device address, got {Numeral.decimal found}"
  | .address error => error.message
  | .rehearsal => "expected count[/label[/fails]]"
  | .isFilter => "is a filter and needs a device after it"
  | .isDevice => "is a device and cannot be used as a filter"

/-- Why a descriptor builds no tree. -/
inductive BuildError where
  | descriptor (error : Descriptor.ParseError)
  | unknownType (kind : Kind) (name : String)
  | badArguments (name : String) (fault : ArgumentFault)
deriving DecidableEq

def BuildError.message : BuildError → String
  | .descriptor error => error.message
  | .unknownType kind name => s!"no {kind.display} type named {name}"
  | .badArguments name fault => s!"{name}: {fault.message}"

/-- The seeds of the filters that are given none, in the order in which these are made. -/
structure SeedSupply where
  upcoming : Nat → UInt64

/-- The first seed and the supply of the others. -/
def SeedSupply.draw (supply : SeedSupply) : UInt64 × SeedSupply :=
  (supply.upcoming 0, ⟨fun n => supply.upcoming (n + 1)⟩)

def SeedSupply.ofEntropy (entropy : UInt64) : SeedSupply :=
  ⟨fun n => (Random.Generator.ofSeed (entropy + UInt64.ofNat n)).next64.1⟩

/-- Making a node of a type, which may use up seeds. -/
abbrev Making := StateT SeedSupply (Except ArgumentFault)

/-- Building a tree, which may use up seeds. -/
abbrev Building := StateT SeedSupply (Except BuildError)

/-- How nodes of a type are made. -/
inductive Maker where
  | device (make : List String → Making Node)
  | filter (wrap : List String → Node → Making Node)

def Maker.kind : Maker → Kind
  | .device _ => .device
  | .filter _ => .filter

/-- A type that descriptors may name. -/
structure Entry where
  name : String
  maker : Maker
  /-- What the arguments are, an empty text for none. -/
  synopsis : String
  doc : String

def Entry.kind (entry : Entry) : Kind :=
  entry.maker.kind

/-- The entries in order. -/
abbrev Catalog := List Entry

/-- The first entry with a name. -/
def Catalog.find? (catalog : Catalog) (name : String) : Option Entry :=
  List.find? (fun entry => Text.sameWord entry.name name) catalog

end PixelTree
