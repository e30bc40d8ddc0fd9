/-! JSON values. The type of their texts is left open: a text that is read may hold half of a
surrogate pair, in which case it stands for no characters.
-/

namespace PixelTree

/-- A JSON value with texts of some type. A number is kept as it is written. -/
inductive Json (τ : Type) where
  | null
  | boolean (value : Bool)
  | number (literal : String)
  | text (value : τ)
  | array (items : List (Json τ))
  | object (members : List (τ × Json τ))

end PixelTree
