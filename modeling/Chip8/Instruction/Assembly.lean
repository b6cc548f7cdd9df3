import Chip8.Instruction.Basic
import Chip8.Text.Numeral
import Chip8.Text.Outline

/-!
# The assembly text of an instruction

A line of assembly is a mnemonic in a column of seven characters and the operands with commas
between them. Registers have a `v` in front, bytes and sprite heights a `#`, addresses a `$`; the
index, the timers and the other parts of the machine have names.

* `Instr.mnemonic` and `Instr.operands` are the parts of a line and `Instr.text` is the line.
* `Instr.name` and `Instr.fields` are the parts of the debug text `Instr.outline`, in which every
  instruction has a name of its own.
-/

namespace Chip8

open Text

/-! ## Operands -/

/-- An operand in a line of assembly. -/
inductive Operand
  | register (n : Nat)
  | byte (n : Nat)
  | height (n : Nat)
  | address (n : Nat)
  | index
  | cellsAtIndex
  | delayTimer
  | soundTimer
  | key
  | glyph
  | digits
  deriving DecidableEq, Repr

/-- The text of an operand. -/
def Operand.text : Operand → String
  | register n => "v" ++ upperHex n
  | byte n => "#" ++ hex 2 n
  | height n => "#" ++ hex 1 n
  | address n => "$" ++ hex 3 n
  | index => "I"
  | cellsAtIndex => "[I]"
  | delayTimer => "DT"
  | soundTimer => "ST"
  | key => "K"
  | glyph => "F"
  | digits => "B"

/-- The operand for a byte. -/
def Operand.ofByte (b : UInt8) : Operand :=
  byte b.toNat

/-! ## Lines -/

/-- The mnemonic of a calculation. -/
def Calculation.mnemonic : Calculation → String
  | copy => "ld"
  | bitOr => "or"
  | bitAnd => "and"
  | bitXor => "xor"
  | add => "add"
  | subtract => "sub"
  | shiftRight => "shr"
  | subtractFrom => "subn"
  | shiftLeft => "shl"

/-- The mnemonic of an instruction. -/
def Instr.mnemonic : Written → String
  | clear => "cls"
  | ret => "ret"
  | jump _ | jumpOffset _ => "jp"
  | call _ => "call"
  | skip true (.byte _ _) | skip true (.register _ _) => "se"
  | skip false (.byte _ _) | skip false (.register _ _) => "sne"
  | skip true (.key _) => "skp"
  | skip false (.key _) => "sknp"
  | calculate c _ _ => c.mnemonic
  | addByte _ _ | addIndex _ => "add"
  | random _ _ => "rnd"
  | draw _ _ _ => "drw"
  | setByte _ _ | setIndex _ | readDelay _ | awaitKey _ | setDelay _ | setSound _ | glyph _
  | decimal _ | store _ | load _ => "ld"

/-- The operands of an instruction, in the order of its line. -/
def Instr.operands : Written → List Operand
  | clear | ret => []
  | jump a | call a => [.address a]
  | jumpOffset a => [.register 0, .address a]
  | setIndex a => [.index, .address a]
  | skip _ (.byte x b) | setByte x b | addByte x b | random x b => [.register x, .ofByte b]
  | skip _ (.register x y) | calculate _ x y => [.register x, .register y]
  | skip _ (.key x) => [.register x]
  | draw x y n => [.register x, .register y, .height n]
  | readDelay x => [.register x, .delayTimer]
  | awaitKey x => [.register x, .key]
  | setDelay x => [.delayTimer, .register x]
  | setSound x => [.soundTimer, .register x]
  | addIndex x => [.index, .register x]
  | glyph x => [.glyph, .register x]
  | decimal x => [.digits, .register x]
  | store x => [.cellsAtIndex, .register x]
  | load x => [.register x, .cellsAtIndex]

/-- The line of assembly of an instruction. -/
def Instr.text (i : Written) : String :=
  padded 7 i.mnemonic ++ ", ".intercalate (i.operands.map Operand.text)

/-! ## Debug text -/

/-- The name of an instruction, different for any two of a different kind. -/
def Instr.name : Written → String
  | clear => "cls"
  | ret => "ret"
  | jump _ => "jp"
  | call _ => "call"
  | skip true (.byte _ _) => "seb"
  | skip false (.byte _ _) => "sneb"
  | skip true (.register _ _) => "se"
  | skip false (.register _ _) => "sne"
  | skip true (.key _) => "skp"
  | skip false (.key _) => "sknp"
  | setByte _ _ => "ldb"
  | addByte _ _ => "addb"
  | calculate c _ _ => c.mnemonic
  | setIndex _ => "ldi"
  | jumpOffset _ => "jpr"
  | random _ _ => "rnd"
  | draw _ _ _ => "drw"
  | readDelay _ => "lddt"
  | awaitKey _ => "ldk"
  | setDelay _ => "setdt"
  | setSound _ => "setst"
  | addIndex _ => "addi"
  | glyph _ => "font"
  | decimal _ => "bcd"
  | store _ => "store"
  | load _ => "load"

/-- The operands of an instruction under the letters that stand for them in the opcode. -/
def Instr.fields : Written → List (String × Nat)
  | clear | ret => []
  | jump a | call a | setIndex a | jumpOffset a => [("A", a)]
  | skip _ (.byte x b) | setByte x b | addByte x b | random x b => [("B", b.toNat), ("x", x)]
  | skip _ (.register x y) | calculate _ x y => [("y", y), ("x", x)]
  | draw x y n => [("y", y), ("x", x), ("n", n)]
  | skip _ (.key x) | readDelay x | awaitKey x | setDelay x | setSound x | addIndex x | glyph x
  | decimal x | store x | load x => [("x", x)]

/-- The debug outline of an instruction: its name and its operands. -/
def Instr.outline (i : Written) : Outline :=
  .record i.name (i.fields.map fun (key, value) => (key, .number value)) false

end Chip8
