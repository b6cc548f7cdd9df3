import Chip8.Instruction.Assembly
import Chip8.Instruction.Code
import Chip8.Text.Style

/-!
# Disassembly

`disassemble` turns any word into a line of text: the assembly of the instruction that the word
stands for, or the word itself behind the mnemonic `inval` if it stands for none. The two kinds of
lines have a style each (`Palette`).
-/

namespace Chip8

open Text

/-- The styles of a listing. -/
structure Palette where
  /-- The style of words that are no instruction. -/
  invalid : Style
  /-- The style of instructions. -/
  valid : Style
  deriving DecidableEq, Repr

namespace Palette

/-- No styles at all. -/
def plain : Palette := ⟨.plain, .plain⟩

/-- Instructions in green, other words in bold red. -/
def standard : Palette where
  invalid := { foreground := some .red, bold := true }
  valid := { foreground := some .green }

end Palette

/-- The line for a word without a style. -/
def disassembleBare (w : UInt16) : String :=
  match Instruction.ofWord? w with
  | some i => i.written.text
  | none => "inval  " ++ hex 4 w.toNat

/-- The line for a word in the styles of a palette. -/
def disassemble (p : Palette) (w : UInt16) : String :=
  (if (Instruction.ofWord? w).isSome then p.valid else p.invalid).paint (disassembleBare w)

/-- The debug outline of a palette. -/
def Palette.outline (p : Palette) : Outline :=
  .record "Dis" [("invalid", p.invalid.outline), ("normal", p.valid.outline)] false

end Chip8
