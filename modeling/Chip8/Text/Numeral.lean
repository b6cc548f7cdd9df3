/-!
# Numerals in texts

The ways in which the texts of this library write a number: hexadecimal digits in lower case with
a least width (`hex`), hexadecimal digits in capitals (`upperHex`), and decimal digits set against
the right edge of a column (`column`). Each is a list of digits first (`hexDigits`), since a list
is what the laws about a text speak of, and a string at the very end.

* `toList_hex`, `toList_upperHex`, `toList_column` are the digit lists behind the strings.
-/

namespace Chip8.Text

/-! ## Hexadecimal -/

/-- The digits of `n` in base sixteen, with zeros in front up to `width` digits. -/
def hexDigits (width n : Nat) : List Char :=
  (Nat.toDigits 16 n).leftpad width '0'

/-- The number `n` in lower-case hexadecimal, `width` digits at least. -/
def hex (width n : Nat) : String :=
  String.ofList (hexDigits width n)

theorem toList_hex (width n : Nat) : (hex width n).toList = hexDigits width n :=
  String.toList_ofList

/-- The number `n` in capital hexadecimal digits, without zeros in front. -/
def upperHex (n : Nat) : String :=
  String.ofList ((Nat.toDigits 16 n).map Char.toUpper)

theorem toList_upperHex (n : Nat) :
    (upperHex n).toList = (Nat.toDigits 16 n).map Char.toUpper :=
  String.toList_ofList

/-- The bytes as pairs of hexadecimal digits, nothing between them. -/
def hexBytes (bytes : List UInt8) : String :=
  String.join (bytes.map fun b => hex 2 b.toNat)

/-! ## Decimal -/

/-- The number `n` in decimal digits, against the right edge of a column of `width`
characters. -/
def column (width n : Nat) : String :=
  String.ofList ((Nat.toDigits 10 n).leftpad width ' ')

theorem toList_column (width n : Nat) :
    (column width n).toList = (Nat.toDigits 10 n).leftpad width ' ' :=
  String.toList_ofList

/-! ## Columns of text -/

/-- The text with blanks behind it up to `width` characters. -/
def padded (width : Nat) (text : String) : String :=
  String.ofList (text.toList.rightpad width ' ')

theorem toList_padded (width : Nat) (text : String) :
    (padded width text).toList = text.toList.rightpad width ' ' :=
  String.toList_ofList

end Chip8.Text
