import Chip8.Machine.Operation

/-!
# The bare machine

The types of a `Machine` rule out that a register, a cell or a row is missing: the number of a
register is below sixteen, and an address is counted round the end of memory. A bare machine has
the same parts as plain lists and numbers, in which any of them may be missing, and it executes
instructions with operands of any size. Each access is checked, and so are the copies of blocks and
the sums of sixteen bits; a check that does not come out well is a breakdown of the whole operation,
which then has no result (`none`).

* `Bare.execute?` is the effect of an instruction, `Bare.step?` a step.
* `Bare.act?` does an action, and `Bare.run?` some actions one after another.

That no regular machine ever breaks down is proved in `Chip8.Proofs.Bare.Safety`.
-/

namespace Chip8

/-! ## Checked accesses -/

namespace Checked

variable {α : Type}

/-- The list with another entry at a place, which there has to be. -/
def put? (l : List α) (k : Nat) (a : α) : Option (List α) :=
  if k < l.length then some (l.set k a) else none

/-- The first `n` entries of a list, which has to have so many. -/
def first? (l : List α) (n : Nat) : Option (List α) :=
  if n ≤ l.length then some (l.take n) else none

/-- The list with data in the place of the entries from `start` to `stop`, which there have to be,
and as many as the data. -/
def replace? (l : List α) (start stop : Nat) (data : List α) : Option (List α) :=
  if start + data.length = stop ∧ stop ≤ l.length then
    some (l.take start ++ data ++ l.drop stop)
  else
    none

/-- The sum of two words, which has to be a word. -/
def add? (a b : UInt16) : Option UInt16 :=
  if a.toNat + b.toNat < 65536 then some (a + b) else none

end Checked

/-! ## The state -/

/-- The state of a machine as plain lists and numbers. -/
structure Bare where
  flags : Flags
  cells : List UInt8
  rows : List (BitVec 64)
  font : UInt16
  rom : List UInt8
  stack : List UInt16
  pc : UInt16
  index : UInt16
  registers : List UInt8
  timers : Timers
  /-- The number of the register that waits for a key. -/
  target : Option Nat
  cycle : Nat

/-- The number of the register that waits for a key. -/
def Status.target? : Status → Option Nat
  | .running => none
  | .waiting target => some target

/-- A machine as a bare one. -/
def Machine.bare (m : Machine) : Bare where
  flags := m.flags
  cells := m.memory.cells.toList
  rows := m.screen.rows.toList
  font := m.font
  rom := m.rom
  stack := m.stack
  pc := m.pc
  index := m.index
  registers := m.registers.toList
  timers := m.timers
  target := m.status.target?
  cycle := m.cycle

namespace Bare

/-- What an instruction does to a bare machine. -/
structure Effect where
  machine : Bare
  flow : Flow := .next
  events : List Event := []

/-- What an operation on a bare machine leaves. -/
structure Report (α : Type) where
  answer : Except Fault α
  machine : Bare
  events : List Event := []
  trace : List TraceLine := []

/-- The report with another answer in place of a successful one. -/
def Report.map {α β : Type} (f : α → β) (r : Report α) : Report β :=
  ⟨r.answer.map f, r.machine, r.events, r.trace⟩

/-! ## Memory -/

/-- The byte at an address. -/
def read? (b : Bare) (a : Nat) : Option UInt8 :=
  b.cells[a % memorySize]?

/-- The machine with a byte written at an address. -/
def write? (b : Bare) (a : Nat) (v : UInt8) : Option Bare := do
  let cells ← Checked.put? b.cells (a % memorySize) v
  return { b with cells := cells }

/-- The `n` bytes from an address on. -/
def bytes? (b : Bare) (a n : Nat) : Option (List UInt8) :=
  (List.range n).mapM fun k => b.read? (a + k)

/-- The machine with the bytes written from an address on. -/
def writeAll? (b : Bare) (a : Nat) : List UInt8 → Option Bare
  | [] => some b
  | v :: rest => do
    let b ← b.write? a v
    b.writeAll? (a + 1) rest

/-- The word at the program counter. -/
def fetch? (b : Bare) : Option UInt16 := do
  let high ← b.read? b.pc.toNat
  let low ← b.read? (b.pc.toNat + 1)
  return Word.ofBytes high low

/-- The cells with other data from the beginning of a region on. -/
def withRegion? (b : Bare) (r : Region) (data : List UInt8) : Option Bare := do
  let cells ← Checked.replace? b.cells r.start (r.start + data.length) data
  return { b with cells := cells }

/-- The machine with glyphs and zeros in memory. The glyphs have to fill their region. -/
def freshMemory? (b : Bare) : Option Bare := do
  let zeros := b.cells.map fun _ => 0
  let cells ← Checked.replace? zeros Region.charset.start Region.charset.stop glyphs
  return { b with cells := cells }

/-! ## Registers -/

/-- The value of a register. -/
def register? (b : Bare) (x : Nat) : Option UInt8 :=
  b.registers[x]?

/-- The machine with a value in a register. -/
def withRegister? (b : Bare) (x : Nat) (v : UInt8) : Option Bare := do
  let registers ← Checked.put? b.registers x v
  return { b with registers := registers }

/-- The machine with the flag register set to one or to zero. -/
def withFlag? (b : Bare) (flag : Bool) : Option Bare :=
  b.withRegister? 0xf (if flag then 1 else 0)

/-- The machine with values in the registers from `x` on. -/
def withRegisters? (b : Bare) (x : Nat) : List UInt8 → Option Bare
  | [] => some b
  | v :: rest => do
    let b ← b.withRegister? x v
    b.withRegisters? (x + 1) rest

/-- The machine after a calculation. -/
def calculated? (b : Bare) (c : Calculation) (x y : Nat) : Option Bare := do
  let (result, flag) := c.apply (← b.register? x) (← b.register? y)
  let b ← b.withRegister? x result
  match flag with
  | none => return b
  | some f => b.withFlag? f

/-- Whether a test comes out positive. -/
def passes? (b : Bare) (keypad : Keypad) : Test Nat → Option Bool
  | .byte x v => do return (← b.register? x) == v
  | .register x y => do return (← b.register? x) == (← b.register? y)
  | .key x => do return keypad.isDown (← b.register? x)

/-! ## Screen, tone, index -/

/-- Draw the rows of a sprite: the rows of the screen, whether a lit pixel went dark, and the pixels
turned over. -/
def drawRows? (rows : List (BitVec 64)) (x y : Nat) :
    List UInt8 → Option (List (BitVec 64) × Bool × List Screen.Toggle)
  | [] => some (rows, false, [])
  | v :: rest => do
    let row ← rows[y % 32]?
    let rows ← Checked.put? rows (y % 32) (row ^^^ Screen.band v x)
    let toggles := ((List.range Screen.width).filter fun px => (Screen.band v x).getMsbD px).map
      fun px => (⟨px, y % 32, !(row.getMsbD px)⟩ : Screen.Toggle)
    let (rows, collision, others) ← drawRows? rows x (y + 1) rest
    return (rows, (row &&& Screen.band v x != 0) || collision, toggles ++ others)

/-- The machine after a sprite of `n` bytes has been drawn, and the pixels turned over. The bytes
are collected in a buffer of sixteen. -/
def drawn? (b : Bare) (x y n : Nat) : Option Effect := do
  let buffer ← Checked.first? (List.replicate 16 (0 : UInt8)) n
  let sprite ← b.bytes? b.index.toNat buffer.length
  let px ← b.register? x
  let py ← b.register? y
  let (rows, collision, toggles) ← drawRows? b.rows (px.toNat % 64) (py.toNat % 32) sprite
  let b ← { b with rows := rows }.withFlag? collision
  return { machine := b, events := toggles.map .pixel }

/-- The machine with a value in the sound timer, and the change of the tone. -/
def sounded (b : Bare) (value : UInt8) : Effect :=
  let (previous, timers) := b.timers.setSound value
  { machine := { b with timers := timers }
    events :=
      if value ≠ 0 then [.toneStart] else if previous ≠ 0 then [.toneStop] else [] }

/-- The machine with a value added to the index. -/
def indexAdvanced? (b : Bare) (value : UInt8) : Option Bare := do
  let sum ← Checked.add? b.index value.toUInt16
  let moved := { b with index := Word.wrap sum.toNat }
  if b.flags.dialect.keepFlag then return moved else moved.withFlag? (0xfff < sum)

/-- The address of the glyph of the low nibble of a value. -/
def glyphAddress? (b : Bare) (value : UInt8) : Option UInt16 :=
  Checked.add? b.font (5 * (value.toUInt16 % 16))

/-- The machine with the index after a block of registers that ends with `x`. -/
def pastBlock? (b : Bare) (x : Nat) : Option Bare :=
  if b.flags.dialect.keepIndex then
    some b
  else do
    let sum ← Checked.add? (← Checked.add? b.index (UInt16.ofNat x)) 1
    return { b with index := Word.wrap sum.toNat }

/-! ## Instructions -/

/-- Remember the address of the next instruction and go to `a`. -/
def callTo (b : Bare) (a : Nat) : Except Fault Effect :=
  if b.stack.length < stackDepth then
    .ok
      { machine := { b with stack := Word.wrap (b.pc.toNat + 2) :: b.stack }
        flow := .jump (UInt16.ofNat a) }
  else
    .error (.stackOverflow b.pc)

/-- Go to the latest return address. -/
def returned (b : Bare) : Except Fault Effect :=
  match b.stack with
  | [] => .error (.stackUnderflow b.pc)
  | a :: rest => .ok { machine := { b with stack := rest }, flow := .jump a }

/-- What an instruction does, unless the machine breaks down. -/
def execute? (b : Bare) (keypad : Keypad) (dice : UInt8) :
    Written → Option (Except Fault Effect)
  | .clear =>
    let rows := List.replicate 32 0
    some (.ok { machine := { b with rows := rows }, events := [.cleared] })
  | .ret => some b.returned
  | .jump a => some (.ok { machine := b, flow := .jump (UInt16.ofNat a) })
  | .call a => some (b.callTo a)
  | .skip expected test => do
    let positive ← b.passes? keypad test
    return .ok { machine := b, flow := if positive = expected then .skip else .next }
  | .setByte x v => do
    return .ok { machine := ← b.withRegister? x v }
  | .addByte x v => do
    return .ok { machine := ← b.withRegister? x ((← b.register? x) + v) }
  | .calculate c x y => do
    return .ok { machine := ← b.calculated? c x y }
  | .setIndex a => some (.ok { machine := { b with index := UInt16.ofNat (a % memorySize) } })
  | .jumpOffset a => do
    let v ← b.register? 0
    return .ok { machine := b, flow := .jump (Word.wrap (a + v.toNat)) }
  | .random x v => do
    return .ok { machine := ← b.withRegister? x (dice &&& v) }
  | .draw x y n => do
    return .ok (← b.drawn? x y n)
  | .readDelay x => do
    return .ok { machine := ← b.withRegister? x b.timers.delay }
  | .awaitKey x => some (.ok { machine := { b with target := some x }, flow := .stay })
  | .setDelay x => do
    let v ← b.register? x
    return .ok { machine := { b with timers := b.timers.setDelay v } }
  | .setSound x => do
    return .ok (b.sounded (← b.register? x))
  | .addIndex x => do
    return .ok { machine := ← b.indexAdvanced? (← b.register? x) }
  | .glyph x => do
    let index ← b.glyphAddress? (← b.register? x)
    return .ok { machine := { b with index := index } }
  | .decimal x => do
    let v ← b.register? x
    return .ok { machine := ← b.writeAll? b.index.toNat (Machine.decimalDigits v) }
  | .store x => do
    let block ← Checked.first? b.registers (x + 1)
    let stored ← b.writeAll? b.index.toNat block
    return .ok { machine := ← stored.pastBlock? x }
  | .load x => do
    let block ← b.bytes? b.index.toNat (x + 1)
    let loaded ← b.withRegisters? 0 block
    return .ok { machine := ← loaded.pastBlock? x }

/-! ## Operations -/

/-- Execute the instruction at the program counter. -/
def step? (b : Bare) (keypad : Keypad) (dice : UInt8) : Option (Report Unit) :=
  if b.flags.pause || b.target.isSome then
    some { answer := .ok (), machine := b }
  else do
    let word ← b.fetch?
    let trace := if b.flags.debug then [⟨b.cycle, b.pc, word⟩] else []
    match Instruction.ofWord? word with
    | none =>
      return { answer := .error (.unknownInstruction word b.pc), machine := b, trace := trace }
    | some i =>
      match ← b.execute? keypad dice i.written with
      | .error fault => return { answer := .error fault, machine := b, trace := trace }
      | .ok e =>
        return {
          answer := .ok ()
          machine := { e.machine with pc := e.flow.target b.pc, cycle := b.cycle + 1 }
          events := e.events
          trace := trace }

/-- Count the timers down. -/
def tick (b : Bare) : Report Unit :=
  if b.flags.pause then
    { answer := .ok (), machine := b }
  else
    let (ended, timers) := b.timers.tick
    { answer := .ok ()
      machine := { b with timers := timers }
      events := if ended then [.toneStop] else [] }

/-- Execute `n` instructions and count the timers down; after a fault there is no countdown. -/
def multistep? (b : Bare) (s : Surroundings) : Nat → Option (Report Unit)
  | 0 => some b.tick
  | n + 1 => do
    let r ← b.step? s.keypad (s.dice 0)
    match r.answer with
    | .error _ => return r
    | .ok () =>
      let rest ← r.machine.multistep? (s.drop 1) n
      return { rest with events := r.events ++ rest.events, trace := r.trace ++ rest.trace }

/-- The machine as its program finds it. The program has to fit its region. -/
def reset? (b : Bare) : Option (Report Unit) := do
  if b.rom.length > Region.program.size then
    none
  let machine ←
    { b with
      rows := List.replicate 32 0
      stack := []
      pc := UInt16.ofNat Region.program.start
      index := 0
      registers := List.replicate 16 0
      timers := {}
      target := none
      cycle := 0 }.freshMemory?
  return {
    answer := .ok ()
    machine := ← machine.withRegion? .program b.rom
    events := (if b.timers.sound ≠ 0 then [.toneStop] else []) ++ [.cleared] }

/-- The machine reset with a new program. A program that is too large is refused. -/
def load? (b : Bare) (rom : List UInt8) : Option (Report Unit) :=
  if rom.length > Region.program.size then
    some { answer := .error (.romTooLarge rom.length Region.program.size), machine := b }
  else
    { b with rom := rom }.reset?

/-- Give a key to a machine that waits for one, and say whether it did. -/
def deliverKey? (b : Bare) (key : UInt8) : Option (Report Bool) :=
  if 0xf < key then
    some { answer := .error (.invalidKey key.toNat), machine := b }
  else
    match b.target with
    | none => some { answer := .ok false, machine := b }
    | some target => do
      let woken ← b.withRegister? target key
      let machine := { woken with target := none, pc := Word.wrap (b.pc.toNat + 2) }
      return { answer := .ok true, machine := machine }

/-- Put a value into a register, if there is such a register. -/
def setRegister (b : Bare) (register : Nat) (value : UInt8) : Report Unit :=
  match b.withRegister? register value with
  | some b => { answer := .ok (), machine := b }
  | none => { answer := .error (.invalidRegister register), machine := b }

/-- Make a change to memory. -/
def editMemory? (b : Bare) : Memory.Edit → Option (Report Unit)
  | .write a v => do
    return { answer := .ok (), machine := ← b.write? a v }
  | .load r data =>
    if data.length > r.size then
      some { answer := .error (.romTooLarge data.length r.size), machine := b }
    else do
      return { answer := .ok (), machine := ← b.withRegion? r data }
  | .clear r => do
    return { answer := .ok (), machine := ← b.withRegion? r (List.replicate r.size 0) }
  | .fill r v => do
    return { answer := .ok (), machine := ← b.withRegion? r (List.replicate r.size v) }
  | .reset => do
    return { answer := .ok (), machine := ← b.freshMemory? }

/-- Do an operation. -/
def perform? (b : Bare) (s : Surroundings) : Operation → Option (Report (Option Bool))
  | .load rom => (b.load? rom).map fun r => r.map fun _ => none
  | .reset => b.reset?.map fun r => r.map fun _ => none
  | .step => (b.step? s.keypad (s.dice 0)).map fun r => r.map fun _ => none
  | .multistep n => (b.multistep? s n).map fun r => r.map fun _ => none
  | .tick => some (b.tick.map fun _ => none)
  | .deliverKey key => (b.deliverKey? key).map fun r => r.map some
  | .setRegister register value => some ((b.setRegister register value).map fun _ => none)
  | .editMemory edit => (b.editMemory? edit).map fun r => r.map fun _ => none
  | .setFlags flags => some { answer := .ok none, machine := { b with flags := flags } }

end Bare

end Chip8
