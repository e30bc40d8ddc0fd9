/-! ASCII letters: words that differ only in the case of ASCII letters are the same word. -/

namespace PixelTree.Text

/-- Characters with every ASCII capital replaced by its small letter. -/
def foldCase (s : String) : List Char :=
  s.toList.map Char.toLower

/-- Holds for texts that agree up to the case of ASCII letters. -/
def sameWord (a b : String) : Bool :=
  foldCase a == foldCase b

end PixelTree.Text
