import Chip8.Instruction.Basic
import Chip8.Word

/-!
# The opcodes

Each instruction is one word. The first nibble of a word names a group; the rest of the word holds
operands, or selects an instruction inside the group.

* `Instruction.ofWord?` reads a word and `Instr.word` writes one.
* `Instruction.ofBytes?` reads the first two bytes of a buffer, and `Written.encode` writes over the
  first two bytes of one.
-/

namespace Chip8

/-! ## Calculations -/

/-- The last nibble of a calculation. -/
def Calculation.code : Calculation → Fin 16
  | copy => 0x0
  | bitOr => 0x1
  | bitAnd => 0x2
  | bitXor => 0x3
  | add => 0x4
  | subtract => 0x5
  | shiftRight => 0x6
  | subtractFrom => 0x7
  | shiftLeft => 0xe

/-- The calculation that a last nibble selects. -/
def Calculation.ofCode? (n : Fin 16) : Option Calculation :=
  match n.val with
  | 0x0 => some copy
  | 0x1 => some bitOr
  | 0x2 => some bitAnd
  | 0x3 => some bitXor
  | 0x4 => some add
  | 0x5 => some subtract
  | 0x6 => some shiftRight
  | 0x7 => some subtractFrom
  | 0xe => some shiftLeft
  | _ => none

theorem Calculation.ofCode?_eq_some_iff {n : Fin 16} {c : Calculation} :
    ofCode? n = some c ↔ n = c.code := by
  revert n
  cases c <;> decide

/-! ## Reading a word -/

/-- The instruction of a word of group `e`: the low byte selects a test of a key. -/
def Instruction.ofKeyByte? (x : Fin 16) (b : UInt8) : Option Instruction :=
  match b.toNat with
  | 0x9e => some (.skip true (.key x))
  | 0xa1 => some (.skip false (.key x))
  | _ => none

/-- The instruction of a word of group `f`: the low byte selects one on a single register. -/
def Instruction.ofRegisterByte? (x : Fin 16) (b : UInt8) : Option Instruction :=
  match b.toNat with
  | 0x07 => some (.readDelay x)
  | 0x0a => some (.awaitKey x)
  | 0x15 => some (.setDelay x)
  | 0x18 => some (.setSound x)
  | 0x1e => some (.addIndex x)
  | 0x29 => some (.glyph x)
  | 0x33 => some (.decimal x)
  | 0x55 => some (.store x)
  | 0x65 => some (.load x)
  | _ => none

/-- The instruction that a word stands for, if it stands for one. -/
def Instruction.ofWord? (w : UInt16) : Option Instruction :=
  let x := Word.nibble w 2
  let y := Word.nibble w 1
  let n := Word.nibble w 0
  let b := Word.lowByte w
  let a := Word.lowAddress w
  match (Word.nibble w 3).val with
  | 0x0 => if a.val = 0x0e0 then some .clear else if a.val = 0x0ee then some .ret else none
  | 0x1 => some (.jump a)
  | 0x2 => some (.call a)
  | 0x3 => some (.skip true (.byte x b))
  | 0x4 => some (.skip false (.byte x b))
  | 0x5 => if n.val = 0 then some (.skip true (.register x y)) else none
  | 0x6 => some (.setByte x b)
  | 0x7 => some (.addByte x b)
  | 0x8 => (Calculation.ofCode? n).map fun c => .calculate c x y
  | 0x9 => if n.val = 0 then some (.skip false (.register x y)) else none
  | 0xa => some (.setIndex a)
  | 0xb => some (.jumpOffset a)
  | 0xc => some (.random x b)
  | 0xd => some (.draw x y n)
  | 0xe => Instruction.ofKeyByte? x b
  | 0xf => Instruction.ofRegisterByte? x b
  | _ => none

/-! ## Writing a word -/

/-- The number of a word from its group, its second nibble and its low byte. -/
def groupCode (group x low : Nat) : Nat :=
  4096 * group + 256 * x + low

/-- The number of the word of an instruction. -/
def Instr.code : Instruction → Nat
  | clear => 0x00e0
  | ret => 0x00ee
  | jump a => 0x1000 + a
  | call a => 0x2000 + a
  | skip true (.byte x b) => groupCode 0x3 x b.toNat
  | skip false (.byte x b) => groupCode 0x4 x b.toNat
  | skip true (.register x y) => groupCode 0x5 x (16 * y)
  | setByte x b => groupCode 0x6 x b.toNat
  | addByte x b => groupCode 0x7 x b.toNat
  | calculate c x y => groupCode 0x8 x (16 * y + c.code)
  | skip false (.register x y) => groupCode 0x9 x (16 * y)
  | setIndex a => 0xa000 + a
  | jumpOffset a => 0xb000 + a
  | random x b => groupCode 0xc x b.toNat
  | draw x y n => groupCode 0xd x (16 * y + n)
  | skip true (.key x) => groupCode 0xe x 0x9e
  | skip false (.key x) => groupCode 0xe x 0xa1
  | readDelay x => groupCode 0xf x 0x07
  | awaitKey x => groupCode 0xf x 0x0a
  | setDelay x => groupCode 0xf x 0x15
  | setSound x => groupCode 0xf x 0x18
  | addIndex x => groupCode 0xf x 0x1e
  | glyph x => groupCode 0xf x 0x29
  | decimal x => groupCode 0xf x 0x33
  | store x => groupCode 0xf x 0x55
  | load x => groupCode 0xf x 0x65

/-- The word of an instruction. -/
def Instr.word (i : Instruction) : UInt16 :=
  UInt16.ofNat i.code

/-! ## Buffers -/

/-- Why no instruction could be read from the bytes of a buffer, or written over them. -/
inductive CodeFault
  /-- The bytes are no instruction. -/
  | unknownOpcode
  /-- The buffer is too short. -/
  | endOfBuffer
  deriving DecidableEq, Repr

/-- Whether the first byte of an instruction that breaks off after it is refused as unknown rather
than as incomplete. -/
def refusedAlone (b : UInt8) : Bool :=
  b.toNat / 16 ∈ [0x1, 0x2, 0x3, 0x4, 0x6, 0xc]

/-- The instruction at the beginning of a buffer; the bytes after the first two do not
matter. -/
def Instruction.ofBytes? : List UInt8 → Except CodeFault Instruction
  | [] => .error .endOfBuffer
  | [b] => .error (if refusedAlone b then .unknownOpcode else .endOfBuffer)
  | high :: low :: _ =>
    match Instruction.ofWord? (Word.ofBytes high low) with
    | some i => .ok i
    | none => .error .unknownOpcode

/-- The buffer with the two bytes of a written instruction over its first two. -/
def Written.putInto? (i : Written) : List UInt8 → Except CodeFault (List UInt8)
  | _ :: _ :: rest =>
    let w := i.fit.word
    .ok (Word.highByte w :: Word.lowByte w :: rest)
  | _ => .error .endOfBuffer

/-- Writing an instruction over the beginning of a buffer: how many bytes were written, or why none
were, and the buffer afterwards. -/
def Written.encode (i : Written) (buffer : List UInt8) : Except CodeFault Nat × List UInt8 :=
  match i.putInto? buffer with
  | .ok bytes => (.ok instructionSize, bytes)
  | .error fault => (.error fault, buffer)

end Chip8
