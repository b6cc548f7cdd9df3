import Chip8.Text.Outline

/-!
# Flags

How a machine is set up. The flags survive a reset and the loading of a program.

* `Dialect` chooses between the two readings that programs expect of three instructions.
* `Flags` adds whether every instruction is written to the trace and whether the machine stands
  still.

Both are ordered by their fields, the first field first and `false` before `true`.
-/

namespace Chip8

open Text

/-- Which reading of the instructions on memory and on the index a program expects. -/
structure Dialect where
  /-- Storing and loading registers leaves the index as it is. -/
  keepIndex : Bool := false
  /-- Adding to the index leaves the flag register as it is. -/
  keepFlag : Bool := false
  deriving DecidableEq, Ord, Repr

/-- The dialect with both readings chosen alike. -/
def Dialect.uniform (b : Bool) : Dialect := ⟨b, b⟩

/-- How a machine is set up. -/
structure Flags where
  /-- Whether each instruction is written to the trace before it is executed. -/
  debug : Bool := false
  /-- Whether the machine stands still. -/
  pause : Bool := false
  /-- The reading of the instructions. -/
  dialect : Dialect := {}
  deriving DecidableEq, Ord, Repr

namespace Flags

/-- The flags with the trace switched. -/
def toggleDebug (f : Flags) : Flags :=
  { f with debug := !f.debug }

/-- The flags with standing still switched. -/
def togglePause (f : Flags) : Flags :=
  { f with pause := !f.pause }

end Flags

/-- The debug outline of a dialect. -/
def Dialect.outline (d : Dialect) : Outline :=
  .record "Quirks" [("dma_inc", .truth d.keepIndex), ("add_i_flag", .truth d.keepFlag)] false

/-- The debug outline of the flags. -/
def Flags.outline (f : Flags) : Outline :=
  .record "Flags"
    [("debug", .truth f.debug), ("pause", .truth f.pause), ("quirks", f.dialect.outline)] false

end Chip8
