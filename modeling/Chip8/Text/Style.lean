import Chip8.Text.Outline

/-!
# Styled terminal text

A terminal is told to change its colours by an escape sequence: the escape character, a bracket,
the numbers of the attributes with semicolons between them, and the letter `m`.

* `Style.paint` sets a text in a style and leaves the terminal without attributes.
* `Colour.tint` sets a text in one colour and restores the standard colour only.
* `embolden` sets a text in bold face.
-/

namespace Chip8.Text

/-- The colours in which the library writes. -/
inductive Colour
  | black
  | red
  | green
  | brightBlack
  deriving DecidableEq, Repr

/-- The attribute that selects a colour for the letters. -/
def Colour.foregroundCode : Colour → Nat
  | black => 30
  | red => 31
  | green => 32
  | brightBlack => 90

/-- The attribute that selects a colour for the ground. -/
def Colour.backgroundCode (c : Colour) : Nat :=
  c.foregroundCode + 10

/-- The name of a colour in debug texts. -/
def Colour.name : Colour → String
  | black => "Black"
  | red => "Red"
  | green => "Green"
  | brightBlack => "BrightBlack"

/-- The escape sequence for the attributes `codes`. -/
def attributes (codes : List Nat) : String :=
  "\x1b[" ++ ";".intercalate (codes.map Nat.repr) ++ "m"

/-- The text in one colour; afterwards the letters have the standard colour again. -/
def Colour.tint (c : Colour) (text : String) : String :=
  attributes [c.foregroundCode] ++ text ++ attributes [39]

/-- The text in bold face; afterwards every attribute is off. -/
def embolden (text : String) : String :=
  attributes [1] ++ text ++ attributes [0]

/-- A choice of colours and face for a whole text. -/
structure Style where
  /-- The colour of the letters, the standard one if there is none. -/
  foreground : Option Colour := none
  /-- The colour of the ground, the standard one if there is none. -/
  background : Option Colour := none
  /-- Whether the face is bold. -/
  bold : Bool := false
  deriving DecidableEq, Repr

namespace Style

/-- The style that changes nothing. -/
def plain : Style := {}

/-- The attributes of a style: letters, ground, face. -/
def codes (s : Style) : List Nat :=
  s.foreground.toList.map Colour.foregroundCode
    ++ s.background.toList.map Colour.backgroundCode
    ++ (if s.bold then [1] else [])

/-- The text in the style `s`; a style without attributes leaves it as it is. -/
def paint (s : Style) (text : String) : String :=
  if s.codes.isEmpty then text else attributes s.codes ++ text ++ attributes [0]

theorem paint_plain (text : String) : plain.paint text = text := rfl

/-- The debug outline of a style. -/
def outline (s : Style) : Outline :=
  let colour (c : Option Colour) : Outline :=
    .optional (c.map fun c => .wrapped "Ansi" (.word c.name))
  .record "Style"
    [("fg", colour s.foreground), ("bg", colour s.background), ("bold", .truth s.bold),
      ("style_flags", .wrapped "StyleFlags" (.number 0))] false

end Style

end Chip8.Text
