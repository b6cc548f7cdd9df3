import Chip8.CommandLine.Grammar
import Chip8.Fault
import Chip8.Instruction.Disassembly
import Chip8.Memory.Basic

/-!
# Listings

A listing shows the words of a program, one a line: the address that the word will have in memory,
its disassembly, and its digits. An odd byte at the end is left out.

* `Listing.lines` is the listing and `Listing.command` the program that prints it.
-/

namespace Chip8.Listing

open Text CommandLine

/-- A line of a listing. -/
structure Line where
  address : Nat
  word : UInt16
  deriving DecidableEq, Repr

/-- The text of a line, with or without colours. -/
def Line.text (plain : Bool) (l : Line) : String :=
  let digits := hex 4 l.word.toNat
  hex 3 l.address ++ ": "
    ++ (if plain then disassemble .plain l.word ++ " " ++ digits
      else disassemble .standard l.word ++ " " ++ Colour.brightBlack.tint digits)
    ++ "\n"

/-- The words of the bytes, the first at the given address, counted round the end of memory. -/
def linesFrom (address : Nat) : List UInt8 → List Line
  | high :: low :: rest =>
    ⟨address % memorySize, Word.ofBytes high low⟩ :: linesFrom (address + 2) rest
  | _ => []

/-- The listing of a program that is loaded at an address, from an offset on. An offset behind the
end means the end. -/
def lines (loadAddress offset : Nat) (program : List UInt8) : List Line :=
  let start := min program.length offset
  linesFrom (loadAddress + start) (program.drop start)

/-! ## The program -/

/-- The settings of the program. -/
structure Settings where
  loadAddress : Nat := 0x200
  offset : Nat := 0
  plain : Bool := false
  deriving DecidableEq, Repr

/-- The command line of the program. -/
def grammar : Grammar Settings where
  name := "c8vm-disasm"
  fileAbout := "Load a ROM to disassemble"
  switches :=
    [{ short := 'h', long := "help", action := .help, about := "Show help text" },
      { short := 'l', long := "loadaddr"
        action := .value "LOADADDR" (some "200") fun text => do
          let address ← readUnsigned 16 (UInt16.size - 1) text
          return fun s => { s with loadAddress := address }
        about := "Load address (usually 200)" },
      { short := 'o', long := "offset"
        action := .value "OFFSET" none fun text => do
          let offset ← readUnsigned 10 (UInt64.size - 1) text
          return fun s => { s with offset := offset }
        about := "Start disassembling at offset..." },
      { short := 'p', long := "plain", action := .flag fun s => { s with plain := true }
        about := "Don't color the output" }]

/-- Print the listing of a file. -/
def print (settings : Settings) : Except FileFault (List UInt8) → Output
  | .error fault => { exit := 1, stderr := "Error: " ++ (Fault.file fault).debugText ++ "\n" }
  | .ok program =>
    { stdout := String.join ((lines settings.loadAddress settings.offset program).map
        (Line.text settings.plain)) }

/-- Run the program, where `files` gives the bytes of a file. -/
def command (files : String → Except FileFault (List UInt8)) (arguments : List String) : Output :=
  grammar.run {} arguments fun file settings => print settings (files file)

end Chip8.Listing
