/-! The blank characters and the trimming of a text at both ends.
A blank is a code point with the Unicode property White_Space.
-/

namespace PixelTree.Text

/-- The ranges of code points with the property White_Space, both ends included. -/
def blankRanges : List (Nat × Nat) :=
  [ (0x0009, 0x000D),
    (0x0020, 0x0020),
    (0x0085, 0x0085),
    (0x00A0, 0x00A0),
    (0x1680, 0x1680),
    (0x2000, 0x200A),
    (0x2028, 0x2029),
    (0x202F, 0x202F),
    (0x205F, 0x205F),
    (0x3000, 0x3000) ]

def isBlank (c : Char) : Bool :=
  blankRanges.any (fun range => range.1 ≤ c.toNat && c.toNat ≤ range.2)

/-- Dropping at the end is dropping at the start of the reversed list. -/
def dropBlankEnd (cs : List Char) : List Char :=
  (cs.reverse.dropWhile isBlank).reverse

/-- Characters without the blanks at either end. -/
def trimChars (cs : List Char) : List Char :=
  dropBlankEnd (cs.dropWhile isBlank)

/-- A text without the blanks at either end. -/
def trim (s : String) : String :=
  String.ofList (trimChars s.toList)

/-- A text is blank when no character of it is anything but a blank. -/
def isAllBlank (cs : List Char) : Bool :=
  cs.all isBlank

end PixelTree.Text
