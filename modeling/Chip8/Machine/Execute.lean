import Chip8.Keypad
import Chip8.Machine.Basic

/-!
# Executing one instruction

`Machine.execute` says what each instruction does. It gives the machine without the change of the
program counter, the place where the program goes on (`Flow`), and the events. Only a call and a
return can fail, and then there is no effect at all.

A calculation writes its flag after its result, so that in the flag register the flag wins.
-/

namespace Chip8

/-! ## Flow -/

/-- Where the program goes on after an instruction. -/
inductive Flow
  /-- At the next instruction. -/
  | next
  /-- After the next instruction. -/
  | skip
  /-- At an address. -/
  | jump (a : UInt16)
  /-- At the same instruction. -/
  | stay
  deriving DecidableEq, Repr

/-- The program counter after an instruction at `pc`. -/
def Flow.target (f : Flow) (pc : UInt16) : UInt16 :=
  match f with
  | next => Word.wrap (pc.toNat + 2)
  | skip => Word.wrap (pc.toNat + 4)
  | jump a => Word.wrap a.toNat
  | stay => Word.wrap pc.toNat

/-- What an instruction does. -/
structure Effect where
  machine : Machine
  flow : Flow := .next
  events : List Event := []

/-! ## Calculations -/

/-- The result of a calculation on the values `a` and `b` of its two registers, and the flag if it
has one. The shifts look at the first value only. -/
def Calculation.apply (c : Calculation) (a b : UInt8) : UInt8 × Option Bool :=
  match c with
  | copy => (b, none)
  | bitOr => (a ||| b, none)
  | bitAnd => (a &&& b, none)
  | bitXor => (a ^^^ b, none)
  | add => (a + b, some (255 < a.toNat + b.toNat))
  | subtract => (a - b, some (b < a))
  | shiftRight => (a >>> 1, some (a.toNat % 2 = 1))
  | subtractFrom => (b - a, some (a < b))
  | shiftLeft => (a <<< 1, some (128 ≤ a.toNat))

namespace Machine

/-- The machine after a calculation. -/
def calculated (m : Machine) (c : Calculation) (x y : Fin 16) : Machine :=
  let (result, flag) := c.apply (m.register x) (m.register y)
  match flag with
  | none => m.withRegister x result
  | some f => (m.withRegister x result).withFlag f

/-! ## Tests -/

/-- Whether a test comes out positive. -/
def passes (m : Machine) (keypad : Keypad) : Test (Fin 16) → Bool
  | .byte x b => m.register x == b
  | .register x y => m.register x == m.register y
  | .key x => keypad.isDown (m.register x)

/-! ## Screen, tone, memory -/

/-- The machine after a sprite of `n` bytes has been drawn, and the pixels turned over. -/
def drawn (m : Machine) (x y n : Fin 16) : Effect :=
  let drawing := m.screen.draw (m.register x) (m.register y) (m.memory.bytes m.index.toNat n)
  { machine := { m with screen := drawing.screen }.withFlag drawing.collision
    events := drawing.toggles.map .pixel }

/-- The machine with a value in the sound timer: any value but zero starts the tone, and zero stops
a tone that is heard. -/
def sounded (m : Machine) (value : UInt8) : Effect :=
  let (previous, timers) := m.timers.setSound value
  { machine := { m with timers := timers }
    events :=
      if value ≠ 0 then [.toneStart] else if previous ≠ 0 then [.toneStop] else [] }

/-- The machine with a value added to the index, and the flag set if that went past the end of
memory, unless the dialect leaves the flag alone. -/
def indexAdvanced (m : Machine) (value : UInt8) : Machine :=
  let sum := m.index.toNat + value.toNat
  let moved := { m with index := Word.wrap sum }
  if m.flags.dialect.keepFlag then moved else moved.withFlag (0xfff < sum)

/-- The address of the glyph of the low nibble of a value. -/
def glyphAddress (m : Machine) (value : UInt8) : UInt16 :=
  UInt16.ofNat (m.font.toNat + 5 * (value.toNat % 16))

/-- The three decimal digits of a byte, the hundreds first. -/
def decimalDigits (value : UInt8) : List UInt8 :=
  [value / 100 % 10, value / 10 % 10, value % 10]

/-- The machine with the index after a block of registers that ends with `x`, unless the dialect
leaves the index alone. -/
def pastBlock (m : Machine) (x : Fin 16) : Machine :=
  if m.flags.dialect.keepIndex then m
  else { m with index := Word.wrap (m.index.toNat + x + 1) }

/-- The registers from the first one to `x`. -/
def block (m : Machine) (x : Fin 16) : List UInt8 :=
  m.registers.toList.take (x + 1)

/-- The machine with the registers from the first one to `x` read from memory. -/
def withBlock (m : Machine) (x : Fin 16) : Machine :=
  { m with
    registers := Vector.ofFn fun r =>
      if r ≤ x then m.memory.read (m.index.toNat + r) else m.register r }

/-! ## Subroutines -/

/-- Remember the address of the next instruction and go to `a`. -/
def callTo (m : Machine) (a : Fin 4096) : Except Fault Effect :=
  if m.stack.length < stackDepth then
    .ok
      { machine := { m with stack := Word.wrap (m.pc.toNat + 2) :: m.stack }
        flow := .jump (UInt16.ofNat a) }
  else
    .error (.stackOverflow m.pc)

/-- Go to the latest return address. -/
def returned (m : Machine) : Except Fault Effect :=
  match m.stack with
  | [] => .error (.stackUnderflow m.pc)
  | a :: rest => .ok { machine := { m with stack := rest }, flow := .jump a }

/-! ## Instructions -/

/-- What an instruction does, where `dice` is the byte that a random instruction draws. -/
def execute (m : Machine) (keypad : Keypad) (dice : UInt8) : Instruction → Except Fault Effect
  | .clear => .ok { machine := { m with screen := .blank }, events := [.cleared] }
  | .ret => m.returned
  | .jump a => .ok { machine := m, flow := .jump (UInt16.ofNat a) }
  | .call a => m.callTo a
  | .skip expected test =>
    .ok { machine := m, flow := if m.passes keypad test = expected then .skip else .next }
  | .setByte x b => .ok { machine := m.withRegister x b }
  | .addByte x b => .ok { machine := m.withRegister x (m.register x + b) }
  | .calculate c x y => .ok { machine := m.calculated c x y }
  | .setIndex a => .ok { machine := { m with index := UInt16.ofNat a } }
  | .jumpOffset a => .ok { machine := m, flow := .jump (Word.wrap (a + (m.register 0).toNat)) }
  | .random x b => .ok { machine := m.withRegister x (dice &&& b) }
  | .draw x y n => .ok (m.drawn x y n)
  | .readDelay x => .ok { machine := m.withRegister x m.timers.delay }
  | .awaitKey x => .ok { machine := { m with status := .waiting x }, flow := .stay }
  | .setDelay x => .ok { machine := { m with timers := m.timers.setDelay (m.register x) } }
  | .setSound x => .ok (m.sounded (m.register x))
  | .addIndex x => .ok { machine := m.indexAdvanced (m.register x) }
  | .glyph x => .ok { machine := { m with index := m.glyphAddress (m.register x) } }
  | .decimal x =>
    let memory := m.memory.writeAll m.index.toNat (decimalDigits (m.register x))
    .ok { machine := { m with memory := memory } }
  | .store x =>
    let memory := m.memory.writeAll m.index.toNat (m.block x)
    .ok { machine := { m with memory := memory }.pastBlock x }
  | .load x => .ok { machine := (m.withBlock x).pastBlock x }

end Machine

end Chip8
