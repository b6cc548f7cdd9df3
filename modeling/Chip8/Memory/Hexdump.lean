import Chip8.Memory.Basic
import Chip8.Text.Style

/-!
# Hexdumps

A hexdump shows a window of memory, sixteen bytes a line. Each line begins with the address of its
first byte, in bold green on black; the bytes follow in pairs, with a wider gap in the middle of the
line.
-/

namespace Chip8.Memory

open Text

/-- The style of the addresses. -/
def addressStyle : Style where
  foreground := some .green
  background := some .black
  bold := true

/-- What begins a line: the address of its first byte. -/
def lineLabel (a : Nat) : String :=
  addressStyle.paint (hex 3 a) ++ addressStyle.paint ":" ++ " "

/-- What follows a byte, by its place in the line. -/
def gapAfter (place : Nat) : String :=
  if place = 15 then "\n"
  else if place = 7 then "  "
  else if place % 2 = 1 then " "
  else ""

/-- The text of one byte of a window that starts at `start`, where `index` bytes come before
it. -/
def cellText (start index : Nat) (b : UInt8) : String :=
  (if index % 16 = 0 then lineLabel (start + index) else "") ++ hex 2 b.toNat
    ++ gapAfter (index % 16)

/-- The end of a window that is asked to end at `stop`: it is not beyond the end of memory. -/
def windowStop (stop : Nat) : Nat :=
  min stop memorySize

/-- The beginning of a window: it is not behind its end. -/
def windowStart (start stop : Nat) : Nat :=
  min start (windowStop stop)

/-- The hexdump of the bytes from `start` to before `stop`, as far as there are such bytes. -/
def window (m : Memory) (start stop : Nat) : String :=
  let first := windowStart start stop
  let shown := m.bytes first (windowStop stop - first)
  String.join (shown.mapIdx fun index b => cellText first index b)

/-- The hexdump of all memory. -/
def dump (m : Memory) : String :=
  m.window 0 memorySize

/-- The debug outline of memory, which shows its size only. -/
def outline (_ : Memory) : Outline :=
  .record "Mem" [("len", .number memorySize)] true

end Chip8.Memory
