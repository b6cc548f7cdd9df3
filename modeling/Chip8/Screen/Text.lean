import Chip8.Screen.Basic
import Chip8.Text.Numeral
import Chip8.Text.Outline

/-!
# Texts of a screen

Three texts show a screen.

* `Screen.text` has a line for each row with its number, and a character for each pixel.
* `Screen.brailleText` has a braille character for each block of two by four pixels.
* `Screen.outline` shows the rows as numbers.
-/

namespace Chip8.Screen

open Text

/-! ## A character for each pixel -/

/-- The line of the row `y`. -/
def rowText (s : Screen) (y : Nat) : String :=
  hex 2 y ++ "|"
    ++ String.ofList ((List.range width).map fun x => if s.pixel x y then '█' else ' ') ++ "|\n"

/-- The screen with a line for each row. -/
def text (s : Screen) : String :=
  String.join ((List.range height).map s.rowText)

/-! ## Braille -/

/-- The number of braille characters in a line; the last one shows no pixel. -/
def brailleColumns : Nat := 33

/-- The number of braille lines; the last one shows no pixel. -/
def brailleLines : Nat := 9

/-- The dots of a braille character: their place in a block of pixels, and their bit. -/
def brailleDots : List (Nat × Nat × Nat) :=
  [(0, 0, 0x01), (1, 0, 0x08), (0, 1, 0x02), (1, 1, 0x10),
    (0, 2, 0x04), (1, 2, 0x20), (0, 3, 0x40), (1, 3, 0x80)]

/-- Whether there is a lit pixel at a place, the screen being surrounded by darkness. -/
def litAt (s : Screen) (x y : Nat) : Bool :=
  x < width && y < height && s.pixel x y

/-- The bits of the dots that are lit in a block of pixels. -/
def brailleBits (s : Screen) (column line : Nat) : Nat :=
  brailleDots.foldl (fun bits (dx, dy, bit) =>
    if s.litAt (2 * column + dx) (4 * line + dy) then bits ||| bit else bits) 0

/-- The character for a block of pixels: a blank for a dark one. -/
def brailleChar (s : Screen) (column line : Nat) : Char :=
  let bits := s.brailleBits column line
  if bits = 0 then ' ' else Char.ofNat (0x2800 + bits)

/-- The screen in braille characters. -/
def brailleText (s : Screen) : String :=
  "\n".intercalate ((List.range brailleLines).map fun line =>
    String.ofList ((List.range brailleColumns).map fun column => s.brailleChar column line)) ++ "\n"

/-! ## Numbers -/

/-- The rows as sixteen hexadecimal digits each. -/
def rowNumerals (s : Screen) : List String :=
  s.rows.toList.map fun row => hex 16 row.toNat

/-- The debug outline of a screen. -/
def outline (s : Screen) : Outline :=
  .record "Screen" [("rows", .list (s.rows.toList.map fun row => .number row.toNat))] false

end Chip8.Screen
