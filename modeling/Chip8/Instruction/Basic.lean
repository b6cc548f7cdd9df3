/-!
# Instructions

The instructions of the machine as data. An instruction has a meaning and operands: the numbers of
registers, a byte, an address, the height of a sprite.

* `Instr ν α` is the shape of an instruction whose operands of one nibble are of type `ν` and whose
  addresses are of type `α`.
* `Instruction` is what a machine executes: operands that fit their places in a word.
* `Written` is what somebody may write down: operands of any size. `Written.fit` keeps of each
  operand the low bits that have a place in a word, and `fit_written` says that an instruction
  survives being written down.
-/

namespace Chip8

/-- What a calculation on two registers computes. -/
inductive Calculation
  | copy
  | bitOr
  | bitAnd
  | bitXor
  | add
  | subtract
  | shiftRight
  | subtractFrom
  | shiftLeft
  deriving DecidableEq, Repr

/-- What a skip looks at: a register and a byte, two registers, or the key that a register
names. -/
inductive Test (ν : Type)
  | byte (x : ν) (b : UInt8)
  | register (x y : ν)
  | key (x : ν)
  deriving DecidableEq, Repr

/-- An instruction, with operands of one nibble in `ν` and addresses in `α`. -/
inductive Instr (ν α : Type)
  /-- Darken the whole screen. -/
  | clear
  /-- Go back to the latest return address. -/
  | ret
  /-- Go to an address. -/
  | jump (a : α)
  /-- Remember the address of the next instruction and go to an address. -/
  | call (a : α)
  /-- Pass over the next instruction if the test comes out as `expected`. -/
  | skip (expected : Bool) (test : Test ν)
  /-- Put a byte into a register. -/
  | setByte (x : ν) (b : UInt8)
  /-- Add a byte to a register, without a flag. -/
  | addByte (x : ν) (b : UInt8)
  /-- Calculate with two registers, the result going to the first. -/
  | calculate (c : Calculation) (x y : ν)
  /-- Put an address into the index. -/
  | setIndex (a : α)
  /-- Go to an address plus the first register. -/
  | jumpOffset (a : α)
  /-- Put the common bits of a random byte and `b` into a register. -/
  | random (x : ν) (b : UInt8)
  /-- Draw `n` bytes from the index on, at the place that two registers hold. -/
  | draw (x y n : ν)
  /-- Put the delay timer into a register. -/
  | readDelay (x : ν)
  /-- Wait for a key and put it into a register. -/
  | awaitKey (x : ν)
  /-- Put a register into the delay timer. -/
  | setDelay (x : ν)
  /-- Put a register into the sound timer. -/
  | setSound (x : ν)
  /-- Add a register to the index. -/
  | addIndex (x : ν)
  /-- Put the address of the glyph of a digit into the index. -/
  | glyph (x : ν)
  /-- Store the three decimal digits of a register from the index on. -/
  | decimal (x : ν)
  /-- Store the registers up to one of them from the index on. -/
  | store (x : ν)
  /-- Load the registers up to one of them from the index on. -/
  | load (x : ν)
  deriving DecidableEq, Repr

/-- An instruction whose operands fit their places in a word. -/
abbrev Instruction := Instr (Fin 16) (Fin 4096)

/-- An instruction as somebody may write it down, with operands of any size. -/
abbrev Written := Instr Nat Nat

/-- The number of bytes of an instruction. -/
def instructionSize : Nat := 2

/-! ## Changing the operands -/

/-- The test with its operands changed by `f`. -/
def Test.map {ν ν' : Type} (f : ν → ν') : Test ν → Test ν'
  | byte x b => byte (f x) b
  | register x y => register (f x) (f y)
  | key x => key (f x)

/-- The instruction with its nibbles changed by `f` and its addresses by `g`. -/
def Instr.map {ν ν' α α' : Type} (f : ν → ν') (g : α → α') : Instr ν α → Instr ν' α'
  | clear => clear
  | ret => ret
  | jump a => jump (g a)
  | call a => call (g a)
  | skip expected test => skip expected (test.map f)
  | setByte x b => setByte (f x) b
  | addByte x b => addByte (f x) b
  | calculate c x y => calculate c (f x) (f y)
  | setIndex a => setIndex (g a)
  | jumpOffset a => jumpOffset (g a)
  | random x b => random (f x) b
  | draw x y n => draw (f x) (f y) (f n)
  | readDelay x => readDelay (f x)
  | awaitKey x => awaitKey (f x)
  | setDelay x => setDelay (f x)
  | setSound x => setSound (f x)
  | addIndex x => addIndex (f x)
  | glyph x => glyph (f x)
  | decimal x => decimal (f x)
  | store x => store (f x)
  | load x => load (f x)

/-- An instruction written down. -/
def Instr.written (i : Instruction) : Written :=
  Instr.map Fin.val Fin.val i

/-- The instruction that is left of a written one when each operand keeps only the low bits that
have a place in a word: four of a nibble and twelve of an address. -/
def Written.fit (i : Written) : Instruction :=
  Instr.map (Fin.ofNat 16) (Fin.ofNat 4096) i

theorem fit_written (i : Instruction) : Written.fit i.written = i := by
  cases i with
  | skip expected test => cases test <;> simp [Instr.written, Written.fit, Instr.map, Test.map]
  | _ => simp [Instr.written, Written.fit, Instr.map]

end Chip8
