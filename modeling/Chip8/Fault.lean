import Chip8.Text.Numeral
import Chip8.Text.Outline

/-!
# Faults

What can go wrong, by cause. Three faults stop a running program: a word that is no instruction, a
call with a full stack, a return with an empty one. The others refuse a request of the host: a rom
that is too large, a key or a register that does not exist, a file that cannot be read.

* `Fault.message` is the text for the user and `Fault.outline` the text for a developer.
-/

namespace Chip8

open Text

/-- Why a file cannot be read. -/
inductive FileFault
  /-- There is no such file. -/
  | missing
  /-- A directory on the way to the file is none. -/
  | notDirectory
  /-- The file is a directory. -/
  | isDirectory
  /-- The user may not read the file. -/
  | denied
  /-- The path, or a name in it, is too long. -/
  | nameTooLong
  /-- Anything else that the operating system has a number and a description for. -/
  | other (number : Nat) (words : String)
  deriving DecidableEq, Repr

namespace FileFault

/-- The number of the fault with the operating system. -/
def code : FileFault → Nat
  | missing => 2
  | notDirectory => 20
  | isDirectory => 21
  | denied => 13
  | nameTooLong => 36
  | other number _ => number

/-- The fault with a number; the words are for a fault that has no constructor of its own. -/
def ofCode (number : Nat) (words : String) : FileFault :=
  match number with
  | 2 => missing
  | 13 => denied
  | 20 => notDirectory
  | 21 => isDirectory
  | 36 => nameTooLong
  | _ => other number words

/-- The name of the kind of the fault. -/
def kind : FileFault → String
  | missing => "NotFound"
  | notDirectory => "NotADirectory"
  | isDirectory => "IsADirectory"
  | denied => "PermissionDenied"
  | nameTooLong => "InvalidFilename"
  | other _ _ => "Uncategorized"

/-- The words of the operating system for the fault. -/
def description : FileFault → String
  | missing => "No such file or directory"
  | notDirectory => "Not a directory"
  | isDirectory => "Is a directory"
  | denied => "Permission denied"
  | nameTooLong => "File name too long"
  | other _ words => words

/-- The text for the user. -/
def message (f : FileFault) : String :=
  f.description ++ " (os error " ++ f.code.repr ++ ")"

/-- The debug outline of the fault. -/
def outline (f : FileFault) : Outline :=
  .record "Os"
    [("code", .number f.code), ("kind", .word f.kind),
      ("message", .word ("\"" ++ f.description ++ "\""))] false

end FileFault

/-- What can go wrong. -/
inductive Fault
  /-- The word at an address is no instruction. -/
  | unknownInstruction (word address : UInt16)
  /-- The call at an address finds the stack full. -/
  | stackOverflow (address : UInt16)
  /-- The return at an address finds the stack empty. -/
  | stackUnderflow (address : UInt16)
  /-- A rom or a block of data of `size` bytes has only `capacity` bytes of room. -/
  | romTooLarge (size capacity : Nat)
  /-- There is no such key. -/
  | invalidKey (key : Nat)
  /-- There is no such register. -/
  | invalidRegister (register : Nat)
  /-- A file cannot be read. -/
  | file (fault : FileFault)
  deriving DecidableEq, Repr

namespace Fault

/-- The text for the user. -/
def message : Fault → String
  | unknownInstruction word address =>
    "opcode " ++ hex 4 word.toNat ++ " at " ++ hex 3 address.toNat ++ " not recognized"
  | stackOverflow address =>
    "stack overflow: call at " ++ hex 3 address.toNat ++ " exceeds 16 return addresses"
  | stackUnderflow address =>
    "stack underflow: return at " ++ hex 3 address.toNat ++ " with an empty stack"
  | romTooLarge size capacity =>
    "rom is " ++ size.repr ++ " bytes, but only " ++ capacity.repr
      ++ " bytes of program memory exist"
  | invalidKey key => "tried to press key " ++ upperHex key ++ " which does not exist"
  | invalidRegister register =>
    "tried to access register v" ++ upperHex register ++ " which does not exist"
  | file fault => fault.message

/-- The name of the kind of a fault. -/
def kind : Fault → String
  | unknownInstruction _ _ => "UnknownInstruction"
  | stackOverflow _ => "StackOverflow"
  | stackUnderflow _ => "StackUnderflow"
  | romTooLarge _ _ => "RomTooLarge"
  | invalidKey _ => "InvalidKey"
  | invalidRegister _ => "InvalidRegister"
  | file _ => "IoError"

/-- The debug outline of a fault. -/
def outline (f : Fault) : Outline :=
  match f with
  | unknownInstruction word address =>
    .record f.kind [("word", .number word.toNat), ("addr", .number address.toNat)] false
  | stackOverflow address | stackUnderflow address =>
    .record f.kind [("addr", .number address.toNat)] false
  | romTooLarge size capacity =>
    .record f.kind [("size", .number size), ("max", .number capacity)] false
  | invalidKey key => .record f.kind [("key", .number key)] false
  | invalidRegister register => .record f.kind [("reg", .number register)] false
  | file fault => .wrapped f.kind fault.outline

/-- The debug text of a fault, on one line. -/
def debugText (f : Fault) : String :=
  f.outline.inline

end Fault

end Chip8
