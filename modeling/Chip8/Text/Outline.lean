/-!
# Outlines of values

An `Outline` is the shape in which a value of the library is shown to somebody who looks for an
error: named records with their fields, lists, and words. It is written on one line
(`Outline.inline`) or with one field a line (`Outline.spread`).
-/

namespace Chip8.Text

/-- The parts of a value that a reader is shown. -/
inductive Outline
  /-- A value whose text is fixed. -/
  | word (text : String)
  /-- A sequence of values. -/
  | list (items : List Outline)
  /-- A value with a name around it. -/
  | wrapped (name : String) (item : Outline)
  /-- Named fields; `more` says that there are others which are not shown. -/
  | record (name : String) (fields : List (String × Outline)) (more : Bool)

namespace Outline

/-- A number in decimal digits. -/
def number (n : Nat) : Outline := word n.repr

/-- A truth value. -/
def truth (b : Bool) : Outline := word (if b then "true" else "false")

/-- A value that may be missing. -/
def optional : Option Outline → Outline
  | none => word "None"
  | some o => wrapped "Some" o

/-! ## On one line -/

mutual

/-- The outline on one line. -/
def inline : Outline → String
  | word text => text
  | list items => "[" ++ ", ".intercalate (inlineItems items) ++ "]"
  | wrapped name item => name ++ "(" ++ inline item ++ ")"
  | record name fields more =>
    match inlineFields fields ++ (if more then [".."] else []) with
    | [] => name
    | parts => name ++ " \x7b " ++ ", ".intercalate parts ++ " \x7d"

/-- The items of a list, each on one line. -/
def inlineItems : List Outline → List String
  | [] => []
  | item :: rest => inline item :: inlineItems rest

/-- The fields of a record with their names, each on one line. -/
def inlineFields : List (String × Outline) → List String
  | [] => []
  | (key, item) :: rest => (key ++ ": " ++ inline item) :: inlineFields rest

end

/-! ## One field a line -/

/-- The blanks in front of a line at a depth of nesting: four for each level. -/
def margin (depth : Nat) : String :=
  String.ofList (List.replicate (4 * depth) ' ')

mutual

/-- The outline with a line of its own for each field and item. The lines after the first have the
margin of their depth, where `depth` is the one of the outline itself. -/
def spread (depth : Nat) : Outline → String
  | word text => text
  | list [] => "[]"
  | list items => "[\n" ++ spreadItems (depth + 1) items ++ margin depth ++ "]"
  | wrapped name item =>
    name ++ "(\n" ++ margin (depth + 1) ++ spread (depth + 1) item ++ ",\n" ++ margin depth ++ ")"
  | record name [] more => if more then name ++ " \x7b .. \x7d" else name
  | record name fields more =>
    name ++ " \x7b\n" ++ spreadFields (depth + 1) fields
      ++ (if more then margin (depth + 1) ++ "..\n" else "")
      ++ margin depth ++ "\x7d"

/-- The lines of the items of a list. -/
def spreadItems (depth : Nat) : List Outline → String
  | [] => ""
  | item :: rest =>
    margin depth ++ spread depth item ++ ",\n" ++ spreadItems depth rest

/-- The lines of the fields of a record. -/
def spreadFields (depth : Nat) : List (String × Outline) → String
  | [] => ""
  | (key, item) :: rest =>
    margin depth ++ key ++ ": " ++ spread depth item ++ ",\n" ++ spreadFields depth rest

end

end Outline

end Chip8.Text
