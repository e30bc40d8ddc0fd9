import PixelTree.Text.Quoted

/-! Nesting of groups and quotes, read one character at a time.
Brackets inside a quote are plain text, and a quote ends at the next quote of its own kind that
no backslash escapes.
-/

namespace PixelTree.Descriptor

/-- The two kinds of groups. -/
inductive Group where
  | paren
  | bracket
deriving DecidableEq

def Group.singular : Group → String
  | .paren => "parenthesis"
  | .bracket => "bracket"

def Group.plural : Group → String
  | .paren => "parentheses"
  | .bracket => "brackets"

def Group.opening? : Char → Option Group
  | '(' => some .paren
  | '[' => some .bracket
  | _ => none

def Group.closing? : Char → Option Group
  | ')' => some .paren
  | ']' => some .bracket
  | _ => none

/-- How the next character is read. -/
inductive Mode where
  /-- Outside every quote. -/
  | plain
  /-- Inside a quote that the given character ends. -/
  | quoted (quote : Char)
  /-- Inside such a quote, after a backslash. -/
  | escaped (quote : Char)
deriving DecidableEq

/-- The groups that are open, innermost first, and the mode of reading. -/
structure Nesting where
  opened : List Group
  mode : Mode
deriving DecidableEq

/-- No group and no quote is open. -/
def Nesting.top : Nesting := ⟨[], .plain⟩

/-- Why a text is not balanced. -/
inductive Imbalance where
  /-- A group is closed while none is open. -/
  | nothingOpen (closing : Group)
  /-- A group is closed by the other kind. -/
  | mismatch (opened closing : Group)
  /-- The text ends inside a quote. -/
  | openQuote
  /-- The text ends inside a group, the innermost one of which is named. -/
  | unclosed (opened : Group)
deriving DecidableEq

def Imbalance.message : Imbalance → String
  | .nothingOpen closing => s!"too many right {closing.plural}"
  | .mismatch opened closing => s!"left {opened.singular} closed by right {closing.singular}"
  | .openQuote => "missing closing quote"
  | .unclosed opened => s!"missing right {opened.singular}"

namespace Nesting

/-- Closes the innermost group, which has to be of the given kind. -/
def close (opened : List Group) (closing : Group) : Except Imbalance Nesting :=
  match opened with
  | [] => throw (.nothingOpen closing)
  | innermost :: outer =>
    if innermost = closing then return ⟨outer, .plain⟩
    else throw (.mismatch innermost closing)

/-- The nesting after one character that does not cut. -/
def step (nesting : Nesting) (c : Char) : Except Imbalance Nesting :=
  match nesting.mode with
  | .escaped quote => return { nesting with mode := .quoted quote }
  | .quoted quote =>
    if c = '\\' then return { nesting with mode := .escaped quote }
    else if c = quote then return { nesting with mode := .plain }
    else return nesting
  | .plain =>
    if Text.isQuote c then return { nesting with mode := .quoted c }
    else
      match Group.opening? c, Group.closing? c with
      | some opening, _ => return { nesting with opened := opening :: nesting.opened }
      | none, some closing => close nesting.opened closing
      | none, none => return nesting

/-- Holds for characters that quotes and groups are made of. -/
def isStructural (c : Char) : Bool :=
  Text.isQuote c || (Group.opening? c).isSome || (Group.closing? c).isSome

/-- A delimiter cuts where nothing is open, unless it is a quote or an end of a group. -/
def cutsAt (delimiter : Char) (nesting : Nesting) (c : Char) : Bool :=
  nesting == top && c == delimiter && !isStructural c

/-- A text may end where nothing is open. -/
def finish (nesting : Nesting) : Except Imbalance Unit :=
  match nesting.mode, nesting.opened with
  | .plain, [] => return ()
  | .plain, innermost :: _ => throw (.unclosed innermost)
  | _, _ => throw .openQuote

end Nesting

end PixelTree.Descriptor
