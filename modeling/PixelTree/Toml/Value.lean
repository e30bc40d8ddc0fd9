/-! TOML values. A table remembers how it came about, because that decides whether later lines of a
document may add to it.
-/

namespace PixelTree.Toml

/-- How a table came about. -/
inductive Form where
  /-- Written between braces; complete as it stands. -/
  | closed
  /-- Opened by a header of its own, as is the whole document. -/
  | header
  /-- Only named on the way to another table by a header. -/
  | parent
  /-- Only named on the way to a key of several parts. -/
  | dotted
deriving DecidableEq

/-- A TOML value. -/
inductive Value where
  | text (value : String)
  | integer (value : Int)
  | float (value : Float)
  | boolean (value : Bool)
  /-- A date, a time, or both, of which only the presence is kept. -/
  | moment
  | array (items : List Value)
  | table (form : Form) (members : List (String × Value))
  /-- Tables that headers in double brackets opened, the last one apart. -/
  | tables (earlier : List (List (String × Value))) (last : List (String × Value))

/-- The members of a table, each name once, in order. -/
abbrev Members := List (String × Value)

namespace Value

def toText? : Value → Option String
  | .text value => some value
  | _ => none

def toNatural? (limit : Nat) : Value → Option Nat
  | .integer (.ofNat n) => if n < limit then some n else none
  | _ => none

def toBoolean? : Value → Option Bool
  | .boolean value => some value
  | _ => none

/-- The first items of a list, as many as there are names, missing where the list is shorter. -/
def inOrder : List String → List Value → List (Option Value)
  | [], _ => []
  | _ :: names, [] => none :: inOrder names []
  | _ :: names, item :: items => some item :: inOrder names items

/-- The values of some fields, each missing where it is not given. A table names its fields, of
which unknown ones are passed over; an array holds the values in order. A moment has fields of
its own, all of them unknown. -/
def fields? (names : List String) : Value → Option (List (Option Value))
  | .table _ members => some (names.map (List.lookup · members))
  | .array items => some (inOrder names items)
  | .tables earlier last =>
    some (inOrder names ((earlier ++ [last]).map (.table .header)))
  | .moment => some (inOrder names [])
  | _ => none

end Value

end PixelTree.Toml
