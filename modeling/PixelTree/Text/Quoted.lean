/-! Quoted arguments: a text between two equal quotes, where a backslash takes the next
character as it is.
-/

namespace PixelTree.Text

def isQuote (c : Char) : Bool :=
  c == '\'' || c == '"'

/-- Resolves the backslashes; one that nothing follows is dropped. -/
def unescape : List Char → List Char
  | '\\' :: c :: rest => c :: unescape rest
  | ['\\'] => []
  | c :: rest => c :: unescape rest
  | [] => []

/-- Takes one layer of equal quotes off and resolves the backslashes inside; a text that is
not enclosed in equal quotes is left as it is. -/
def unquoteChars : List Char → List Char
  | [] => []
  | opening :: rest =>
    if isQuote opening ∧ rest.getLast? = some opening then unescape rest.dropLast
    else opening :: rest

def unquote (s : String) : String :=
  String.ofList (unquoteChars s.toList)

/-- Puts a backslash in front of every backslash and every quote of the given kind. -/
def escape (enclosing : Char) : List Char → List Char
  | [] => []
  | c :: rest =>
    if c = '\\' ∨ c = enclosing then '\\' :: c :: escape enclosing rest
    else c :: escape enclosing rest

def quote (enclosing : Char) (s : String) : String :=
  String.ofList (enclosing :: escape enclosing s.toList ++ [enclosing])

end PixelTree.Text
