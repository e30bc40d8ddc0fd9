import PixelTree.Color.Basic
import PixelTree.Text.Blank
import PixelTree.Text.Letters

/-! Color texts: one of ten names, or `#rrggbb`. -/

namespace PixelTree.Color

def named : List (String × Color) :=
  [ ("black", black),
    ("white", white),
    ("red", pureRed),
    ("green", pureGreen),
    ("blue", pureBlue),
    ("yellow", ⟨1, 1, 0⟩),
    ("cyan", ⟨0, 1, 1⟩),
    ("magenta", ⟨1, 0, 1⟩),
    ("orange", ⟨1, 0.5, 0⟩),
    ("purple", ⟨0.5, 0, 1⟩) ]

/-- Why a text is no color; each cause carries the text without blanks at its ends. -/
inductive ParseError where
  /-- A number sign is not followed by exactly six ASCII characters. -/
  | shape (text : String)
  /-- One of three pairs of characters is no byte. -/
  | digit (text : String)
  /-- No color has this name. -/
  | name (text : String)
deriving DecidableEq

def ParseError.message : ParseError → String
  | .shape text => s!"bad color '{text}': expected #rrggbb"
  | .digit text => s!"bad color '{text}': invalid hex digit"
  | .name text => s!"unknown color '{text}'"

/-- The color of six characters, two for each channel. -/
def ofHex? : List Char → Option Color
  | [r, s, g, h, b, c] => do
    let red ← Numeral.hexPair? r s
    let green ← Numeral.hexPair? g h
    let blue ← Numeral.hexPair? b c
    return ofLevels red green blue
  | _ => none

/-- The color with a name in any case of letters. -/
def ofName? (name : String) : Option Color :=
  (named.find? (fun entry => Text.sameWord entry.1 name)).map Prod.snd

/-- Reads a color, ignoring blanks at both ends of the text. -/
def parse (s : String) : Except ParseError Color :=
  let text := Text.trim s
  match text.toList with
  | '#' :: hex =>
    if hex.length ≠ 6 ∨ hex.any (fun c => 127 < c.toNat) then throw (.shape text)
    else (ofHex? hex).elim (throw (.digit text)) pure
  | _ => (ofName? text).elim (throw (.name text)) pure

end PixelTree.Color
