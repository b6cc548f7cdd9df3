import Chip8.Machine.Basic

/-!
# Looking at a machine

* `Machine.dump` is a table of the registers and counters.
* `Machine.outline` is the debug outline of a machine, and `consoleOutline` the one of a machine
  together with the things outside that it is connected to.
-/

namespace Chip8

open Text

namespace Machine

/-- The text of a register in a table with four registers in a line. -/
def registerCell (x : Nat) (b : UInt8) : String :=
  "v" ++ upperHex x ++ ": " ++ hex 2 b.toNat ++ " " ++ (if x % 4 = 3 then "\n" else "")

/-- The table of the registers and counters. -/
def dump (m : Machine) : String :=
  "PC: " ++ hex 4 m.pc.toNat ++ ", SP: " ++ hex 4 m.stack.length ++ ", I: " ++ hex 4 m.index.toNat
    ++ "\n" ++ String.join (m.registers.toList.mapIdx registerCell)
    ++ "DLY: " ++ m.timers.delay.toNat.repr ++ ", SND: " ++ m.timers.sound.toNat.repr
    ++ ", CYC: " ++ column 6 m.cycle ++ "\n"

/-- The debug outline of a status. -/
def statusOutline : Status → Outline
  | .running => .word "Running"
  | .waiting target => .record "Halted" [("target", .number target)] false

/-- The debug outline of a machine; memory, screen and program are not shown. -/
def outline (m : Machine) : Outline :=
  .record "CPU"
    [("flags", m.flags.outline),
      ("font", .number m.font.toNat),
      ("stack", .list (m.stack.reverse.map fun a => .number a.toNat)),
      ("pc", .number m.pc.toNat),
      ("i", .number m.index.toNat),
      ("v", .list (m.registers.toList.map fun b => .number b.toNat)),
      ("timers", m.timers.outline),
      ("state", statusOutline m.status),
      ("cycle", .number m.cycle),
      ("disassembler", Palette.standard.outline)] true

/-- The debug outline of a machine with its connections, which are not shown. -/
def consoleOutline (m : Machine) : Outline :=
  .record "Chip8" [("cpu", m.outline), ("io", .record "Io" [] true)] false

end Machine

end Chip8
