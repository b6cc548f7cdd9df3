import Chip8.Fault

/-!
# File trees

The files that a program may be given, as a value: a directory has named entries, and each of them
is a file or again a directory. A path is followed name by name, from the working directory or, if
it begins with a slash, from the root.

* `Location.follow` follows the names of a path, and `Location.read` gives the bytes of the file at
  the end of a path or the fault that reading it meets. The first name that cannot be followed
  decides the fault, except that a path may be too long as a whole.
-/

namespace Chip8

/-- A file, or a directory with its entries. -/
inductive FileTree
  | file (bytes : List UInt8)
  | directory (entries : List (String × FileTree))

/-- The number of bytes that a name may have. -/
def nameLimit : Nat := 255

/-- The number of bytes that a path may have. -/
def pathLimit : Nat := 4095

/-- A directory, and the directories around it with the nearest one first. -/
structure Location where
  here : List (String × FileTree)
  above : List (List (String × FileTree)) := []

namespace Location

/-- The directory around a directory; the root has none but itself. -/
def up (l : Location) : Location :=
  match l.above with
  | [] => l
  | next :: rest => ⟨next, rest⟩

/-- The root of the tree. -/
def root (l : Location) : Location :=
  ⟨l.above.getLastD l.here, []⟩

/-- The bytes of the file to which the names of a path lead. An empty name, which is what stands
between two slashes, and a single dot lead nowhere else. -/
def follow (l : Location) : List String → Except FileFault (List UInt8)
  | [] => .error .isDirectory
  | name :: rest =>
    if name = "" ∨ name = "." then l.follow rest
    else if name = ".." then l.up.follow rest
    else if nameLimit < name.utf8ByteSize then .error .nameTooLong
    else
      match l.here.lookup name with
      | none => .error .missing
      | some (.directory entries) => follow ⟨entries, l.here :: l.above⟩ rest
      | some (.file bytes) => if rest.isEmpty then .ok bytes else .error .notDirectory

/-- The bytes of the file at a path. -/
def read (l : Location) (path : String) : Except FileFault (List UInt8) :=
  if path.isEmpty then .error .missing
  else if pathLimit < path.utf8ByteSize then .error .nameTooLong
  else (if path.startsWith "/" then l.root else l).follow (path.splitOn "/")

end Location

end Chip8
