import PixelTree.Descriptor.Split

/-! Descriptors: a chain of filter stages in front of a device stage or a list of descriptors.
The outermost filter stands first; the members of a list are kept as texts.
-/

namespace PixelTree.Descriptor

/-- A type name with its arguments. -/
structure Stage where
  name : String
  args : List String
deriving DecidableEq

/-- What a chain of filters ends in. -/
inductive Leaf where
  | device (stage : Stage)
  | list (items : List String)
deriving DecidableEq

/-- A descriptor taken apart at its top level. -/
structure Pipeline where
  filters : List Stage
  leaf : Leaf
deriving DecidableEq

/-- What is wrong with the text of a descriptor. -/
inductive Malformation where
  | unbalanced (fault : Imbalance)
  | missingName
  | badName (name : String)
  | emptyFilter
  | missingDevice
  | textAfterList
deriving DecidableEq

def Malformation.message : Malformation → String
  | .unbalanced fault => fault.message
  | .missingName => "missing type name"
  | .badName name => s!"bad type name '{name}'"
  | .emptyFilter => "empty filter stage"
  | .missingDevice => "missing device after last '|'"
  | .textAfterList => "unexpected text after ']'"

/-- Why a descriptor cannot be taken apart, with the place of the fault. -/
inductive ParseError where
  | emptyList (context : String)
  | malformed (context : String) (fault : Malformation)
deriving DecidableEq

def ParseError.message : ParseError → String
  | .emptyList context => s!"{context}: empty list"
  | .malformed context fault => s!"{context}: {fault.message}"

/-- A split error is reported with the context of the text that was split. -/
def ParseError.ofSplit (context : String) : SplitError → ParseError
  | .blank => .emptyList context
  | .unbalanced fault => .malformed context (.unbalanced fault)

def splitIn (context : String) (delimiter : Char) (input : String)
    : Except ParseError (List String) :=
  (split delimiter input).mapError (ParseError.ofSplit context)

def parseList (context input : String) : Except ParseError (List String) :=
  splitIn context ',' input

-----------------------------------------------------------------------------------------
-- Stages
-----------------------------------------------------------------------------------------

def isNameChar (c : Char) : Bool :=
  c.isAlphanum || c == '_' || c == '-'

/-- Text up to the first colon, and the text after it if there is one. -/
def splitColon (cs : List Char) : List Char × Option (List Char) :=
  (cs.takeWhile (· != ':'), (cs.dropWhile (· != ':')).tail?)

/-- Reads `name` or `name:arguments`; the name is checked before the arguments. -/
def parseStage (text : String) : Except ParseError Stage := do
  let (front, args?) := splitColon text.toList
  let name := Text.trimChars front
  if name.isEmpty then
    throw (.malformed text .missingName)
  if !name.all isNameChar then
    throw (.malformed text (.badName (String.ofList name)))
  let name := String.ofList name
  match args? with
  | none => return ⟨name, []⟩
  | some args => return ⟨name, ← parseList name (String.ofList args)⟩

-----------------------------------------------------------------------------------------
-- Chains
-----------------------------------------------------------------------------------------

/-- The text between the brackets that a leaf starts and ends with. -/
def bracketed? (rest : List Char) : Option (List Char) :=
  if rest.getLast? = some ']' then some rest.dropLast else none

/-- Reads the last segment of a descriptor. -/
def parseLeaf (text : String) : Except ParseError Leaf :=
  match text.toList with
  | '[' :: rest =>
    match bracketed? rest with
    | none => throw (.malformed text .textAfterList)
    | some inner => Leaf.list <$> parseList "device list" (String.ofList inner)
  | _ => Leaf.device <$> parseStage text

/-- Reads one of the segments before the last. -/
def parseFilter (descriptor segment : String) : Except ParseError Stage :=
  if segment = "" then throw (.malformed descriptor .emptyFilter)
  else parseStage segment

/-- Takes a descriptor apart. The filters are read in order, then the leaf. -/
def parse (descriptor : String) : Except ParseError Pipeline := do
  let segments ← splitIn "descriptor" '|' descriptor
  let filters ← segments.dropLast.mapM (parseFilter descriptor)
  let last := segments.getLast?.getD ""
  if last = "" then
    throw (.malformed descriptor .missingDevice)
  return ⟨filters, ← parseLeaf last⟩

-----------------------------------------------------------------------------------------
-- Members are shorter
-----------------------------------------------------------------------------------------

theorem length_le_of_splitIn {context input : String} {delimiter : Char}
    {tokens : List String} (h : splitIn context delimiter input = .ok tokens)
    : ∀ token ∈ tokens, token.length ≤ input.length := by
  unfold splitIn split at h
  cases hs : splitChars delimiter input.toList with
  | error e => rw [hs] at h; cases h
  | ok pieces =>
      rw [hs] at h
      cases h
      intro token ht
      obtain ⟨piece, hp, rfl⟩ := List.mem_map.mp ht
      have hle := length_le_of_splitChars hs piece hp
      rwa [String.length_toList, ← String.length_ofList] at hle

/-- The brackets of a list are not part of its members. -/
theorem length_lt_of_parseLeaf {text : String} {items : List String}
    (h : parseLeaf text = .ok (.list items))
    : ∀ item ∈ items, item.length + 2 ≤ text.length := by
  unfold parseLeaf at h
  split at h
  · next rest htext =>
      split at h
      · cases h
      · next inner hinner =>
          cases hlist : parseList "device list" (String.ofList inner) with
          | error e => rw [hlist] at h; cases h
          | ok found =>
              rw [hlist] at h
              cases h
              intro item hi
              have hle := length_le_of_splitIn hlist item hi
              unfold bracketed? at hinner
              split at hinner
              · next hlast =>
                  cases hinner
                  have hne : rest ≠ [] := by
                    intro hnil
                    simp [hnil] at hlast
                  have hpos := List.length_pos_iff.mpr hne
                  have htotal : text.length = rest.length + 1 := by
                    rw [← String.length_toList, htext]; rfl
                  simp only [String.length_ofList, List.length_dropLast] at hle
                  omega
              · cases hinner
  · cases hstage : parseStage text with
    | error e => rw [hstage] at h; cases h
    | ok stage => rw [hstage] at h; cases h

/-- Every member of the list that a descriptor ends in is at least two characters shorter
than the descriptor. -/
theorem length_lt_of_parse {descriptor : String} {pipeline : Pipeline}
    {items : List String} (h : parse descriptor = .ok pipeline)
    (hleaf : pipeline.leaf = .list items)
    : ∀ item ∈ items, item.length + 2 ≤ descriptor.length := by
  unfold parse at h
  cases hsplit : splitIn "descriptor" '|' descriptor with
  | error e => rw [hsplit] at h; cases h
  | ok segments =>
      rw [hsplit] at h
      simp only [bind, Except.bind, pure, Except.pure, throw, throwThe,
        MonadExceptOf.throw] at h
      split at h
      · cases h
      · split at h
        · cases h
        · next hne =>
            split at h
            · cases h
            · next leaf hparsed =>
                cases h
                simp only at hleaf
                subst hleaf
                intro item hi
                have hshort := length_lt_of_parseLeaf hparsed item hi
                cases hlast : segments.getLast? with
                | none => simp [hlast] at hne
                | some last =>
                    rw [hlast] at hshort
                    have hmem := List.mem_of_getLast? hlast
                    have hle := length_le_of_splitIn hsplit last hmem
                    simp only [Option.getD_some] at hshort
                    omega

end PixelTree.Descriptor
