import Chip8.Flags
import Chip8.Instruction.Disassembly
import Chip8.Memory.Basic
import Chip8.Screen.Basic
import Chip8.Timers

/-!
# The machine

A machine is memory and screen, sixteen registers, the index, the program counter, a stack of return
addresses, two timers and a count of the instructions that it has executed. It may wait for a key.

* `Machine` is the state, and `Machine.new` the state in which a machine is made.
* `Event` is what a machine tells the outside: pixels, a cleared screen, the tone.
* `TraceLine` is a line of the trace, which a machine with the debug flag writes.
* `Report` is what an operation leaves: an answer, the machine, the events and the trace.
-/

namespace Chip8

open Text

/-- The number of return addresses for which the stack has room. -/
def stackDepth : Nat := 16

/-- Whether a machine executes instructions or waits for a key. -/
inductive Status
  | running
  /-- The key goes into the register `target`. -/
  | waiting (target : Fin 16)
  deriving DecidableEq, Repr

/-- The state of a machine. -/
structure Machine where
  flags : Flags
  memory : Memory
  screen : Screen
  /-- The address of the first glyph. -/
  font : UInt16
  /-- The program that a reset brings back. -/
  rom : List UInt8
  /-- The return addresses, the latest first. -/
  stack : List UInt16
  /-- The program counter. -/
  pc : UInt16
  index : UInt16
  registers : Vector UInt8 16
  timers : Timers
  status : Status
  /-- The number of instructions executed since the last reset. -/
  cycle : Nat
  deriving DecidableEq

/-! ## What an operation leaves -/

/-- What a machine tells the outside. -/
inductive Event
  /-- A pixel was turned over. -/
  | pixel (toggle : Screen.Toggle)
  /-- Every pixel went dark. -/
  | cleared
  /-- The tone starts. -/
  | toneStart
  /-- The tone stops. -/
  | toneStop
  deriving DecidableEq, Repr

/-- A line of the trace: the state of the counters before an instruction, and its word. -/
structure TraceLine where
  cycle : Nat
  pc : UInt16
  word : UInt16
  deriving DecidableEq, Repr

/-- The text of a line of the trace: the cycle in grey, the address, and the disassembly in a column
of 36 characters, in which the escape sequences count. -/
def TraceLine.text (l : TraceLine) : String :=
  Colour.brightBlack.tint (column 3 l.cycle) ++ " " ++ hex 3 l.pc.toNat ++ ": "
    ++ padded 36 (disassemble .standard l.word) ++ "\n"

/-- What an operation leaves: its answer or the fault, the machine, and what the machine told the
outside, in order. -/
structure Report (α : Type) where
  answer : Except Fault α
  machine : Machine
  events : List Event := []
  trace : List TraceLine := []

namespace Report

/-- The report of an operation that succeeds without telling anything. -/
def done (m : Machine) : Report Unit where
  answer := .ok ()
  machine := m

/-- The report of a refusal, which changes nothing. -/
def refused {α : Type} (fault : Fault) (m : Machine) : Report α where
  answer := .error fault
  machine := m

/-- The report with another answer in place of a successful one. -/
def map {α β : Type} (f : α → β) (r : Report α) : Report β where
  answer := r.answer.map f
  machine := r.machine
  events := r.events
  trace := r.trace

end Report

/-! ## Parts of the state -/

namespace Machine

/-- The machine in which a run begins: only the glyphs stand in memory. -/
def new (flags : Flags) : Machine where
  flags := flags
  memory := .fresh
  screen := .blank
  font := UInt16.ofNat Region.charset.start
  rom := []
  stack := []
  pc := UInt16.ofNat Region.program.start
  index := 0
  registers := Vector.replicate 16 0
  timers := {}
  status := .running
  cycle := 0

/-- Whether the machine waits for a key. -/
def isWaiting (m : Machine) : Bool :=
  m.status != .running

/-- The value of a register. -/
def register (m : Machine) (x : Fin 16) : UInt8 :=
  m.registers[x]

/-- The machine with a value in a register. -/
def withRegister (m : Machine) (x : Fin 16) (b : UInt8) : Machine :=
  { m with registers := m.registers.set x b }

/-- The machine with the flag register set to one or to zero. -/
def withFlag (m : Machine) (flag : Bool) : Machine :=
  m.withRegister 0xf (if flag then 1 else 0)

/-- The word of memory at the program counter. -/
def fetch (m : Machine) : UInt16 :=
  m.memory.word m.pc.toNat

theorem register_withRegister (m : Machine) (x z : Fin 16) (b : UInt8) :
    (m.withRegister x b).register z = if x = z then b else m.register z := by
  simp [register, withRegister, Vector.getElem_set, Fin.ext_iff]

theorem register_withFlag (m : Machine) (z : Fin 16) (flag : Bool) :
    (m.withFlag flag).register z = if z = 0xf then (if flag then 1 else 0) else m.register z := by
  simp [withFlag, register_withRegister, eq_comm]

end Machine

end Chip8
