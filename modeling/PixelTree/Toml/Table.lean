import PixelTree.Toml.Value

/-! How the lines of a document make up its table. A line names a place by a key of several parts;
tables on the way there that do not exist yet are made. No name is given a value twice, and no
table is opened twice.
-/

namespace PixelTree.Toml

/-- A key of one or several parts. -/
structure Key where
  /-- The names on the way, outermost first. -/
  parents : List String
  name : String
deriving DecidableEq

def Key.parts (key : Key) : List String :=
  key.parents ++ [key.name]

namespace Members

/-- Gives a name the value that a change makes of its present one, if there is one. -/
def update (name : String) (change : Option Value → Option Value)
    : Members → Option Members
  | [] => (change none).map (fun value => [(name, value)])
  | (other, value) :: rest =>
    if other = name then (change (some value)).map (fun value => (name, value) :: rest)
    else (update name change rest).map ((other, value) :: ·)

/-- Whether a table may be entered on the way to another place. A key of several parts does
not enter tables that a header opened. -/
def mayEnter (dotted : Bool) : Form → Bool
  | .closed => false
  | .header => !dotted
  | .parent => true
  | .dotted => true

/-- Changes the table that stands in a place, a new one if there is nothing. Of the tables of
double brackets the last one is meant. -/
def enter (dotted : Bool) (change : Form → Members → Option Members)
    : Option Value → Option Value
  | none =>
    let form := if dotted then Form.dotted else Form.parent
    (change form []).map (.table form)
  | some (.table form members) =>
    if mayEnter dotted form then (change form members).map (.table form) else none
  | some (.tables earlier last) => (change .header last).map (.tables earlier)
  | some _ => none

def alter (dotted : Bool) (change : Form → Members → Option Members)
    : List String → Form → Members → Option Members
  | [], form, members => change form members
  | name :: path, _, members =>
    update name (enter dotted (alter dotted change path)) members

/-- Fills a place that is empty. -/
def fill (value : Value) : Option Value → Option Value
  | none => some value
  | some _ => none

/-- Gives a key a value. A key of several parts adds to tables that such keys made, and to no
other ones. -/
def assign (key : Key) (value : Value) : Form → Members → Option Members :=
  alter true
    (fun form members =>
      if form = .dotted ↔ key.parents = [] then none
      else update key.name (fill value) members)
    key.parents

/-- Opens a table in a place that is empty, or the table there if no header opened it yet. -/
def openTable : Option Value → Option Value
  | none => some (.table .header [])
  | some (.table .parent members) => some (.table .header members)
  | some _ => none

/-- Opens one more table of double brackets. -/
def openNext : Option Value → Option Value
  | none => some (.tables [] [])
  | some (.tables earlier last) => some (.tables (earlier ++ [last]) [])
  | some _ => none

def atHeader (change : Option Value → Option Value) (key : Key) (members : Members)
    : Option Members :=
  alter false (fun _ members => update key.name change members) key.parents .header members

def ofPairs (form : Form) (pairs : List (Key × Value)) : Option Members :=
  pairs.foldlM (fun members pair => assign pair.1 pair.2 form members) []

end Members

/-- A line of a document that says something. -/
inductive Line where
  | header (key : Key)
  | doubleHeader (key : Key)
  | pair (key : Key) (value : Value)

/-- The members so far, and where the table is that pairs are added to. -/
structure Draft where
  members : Members
  place : List String

namespace Draft

/-- The draft with one more line. -/
def extend (draft : Draft) : Line → Option Draft
  | .header key =>
    (Members.atHeader Members.openTable key draft.members).map (Draft.mk · key.parts)
  | .doubleHeader key =>
    (Members.atHeader Members.openNext key draft.members).map (Draft.mk · key.parts)
  | .pair key value =>
    (Members.alter false (Members.assign key value) draft.place .header draft.members).map
      (Draft.mk · draft.place)

end Draft

def assemble (lines : List Line) : Option Members :=
  (lines.foldlM Draft.extend ⟨[], []⟩).map Draft.members

end PixelTree.Toml
