import Chip8.Fault
import Chip8.Word

/-!
# Memory

Memory is a ring of 4096 bytes: every address is taken modulo the size, so no access can fail.
Two regions have names: the glyphs of the sixteen digits, and the program.

* `Memory.read` and `Memory.write` are the operations on one cell, and `read_write` is their law.
* `Memory.writeAll`, `Memory.bytes` and `Memory.word` are the same for neighbouring cells, with the
  laws `read_writeAll` and `getElem_bytes`.
* `Memory.load` puts data into a region and refuses data that are too large for it.
-/

namespace Chip8

/-- The number of bytes of memory. -/
def memorySize : Nat := 4096

/-! ## Regions -/

/-- A part of memory with a name. -/
inductive Region
  /-- The glyphs. -/
  | charset
  /-- The program. -/
  | program
  deriving DecidableEq, Ord, Repr

namespace Region

/-- The first address of a region. -/
def start : Region → Nat
  | charset => 0x050
  | program => 0x200

/-- The address after the last one of a region. -/
def stop : Region → Nat
  | charset => 0x0a0
  | program => memorySize

/-- The number of bytes of a region. -/
def size (r : Region) : Nat :=
  r.stop - r.start

/-- The name of a region. -/
def name : Region → String
  | charset => "Charset"
  | program => "Program"

end Region

/-! ## Glyphs -/

/-- The glyphs of the sixteen digits, four by five pixels each, a byte for each row. -/
def glyphs : List UInt8 :=
  [0xf0, 0x90, 0x90, 0x90, 0xf0,
    0x20, 0x60, 0x20, 0x20, 0x70,
    0xf0, 0x10, 0xf0, 0x80, 0xf0,
    0xf0, 0x10, 0xf0, 0x10, 0xf0,
    0x90, 0x90, 0xf0, 0x10, 0x10,
    0xf0, 0x80, 0xf0, 0x10, 0xf0,
    0xf0, 0x80, 0xf0, 0x90, 0xf0,
    0xf0, 0x10, 0x20, 0x40, 0x40,
    0xf0, 0x90, 0xf0, 0x90, 0xf0,
    0xf0, 0x90, 0xf0, 0x10, 0xf0,
    0xf0, 0x90, 0xf0, 0x90, 0x90,
    0xe0, 0x90, 0xe0, 0x90, 0xe0,
    0xf0, 0x80, 0x80, 0x80, 0xf0,
    0xe0, 0x90, 0x90, 0x90, 0xe0,
    0xf0, 0x80, 0xf0, 0x80, 0xf0,
    0xf0, 0x80, 0xf0, 0x80, 0x80]

theorem length_glyphs : glyphs.length = Region.charset.size := rfl

/-! ## Cells -/

/-- The bytes of memory. -/
structure Memory where
  cells : Vector UInt8 4096
  deriving DecidableEq

namespace Memory

/-- The byte at an address, counted round the end of memory. -/
def read (m : Memory) (a : Nat) : UInt8 :=
  m.cells[a % 4096]

/-- The memory with a byte written at an address, counted round the end of memory. -/
def write (m : Memory) (a : Nat) (b : UInt8) : Memory :=
  ⟨m.cells.set (a % 4096) b⟩

/-- A written byte is read at its address, and the other cells keep theirs. -/
theorem read_write (m : Memory) (a c : Nat) (b : UInt8) :
    (m.write a b).read c = if a % 4096 = c % 4096 then b else m.read c := by
  simp only [read, write, Vector.getElem_set]

theorem read_mod (m : Memory) (a : Nat) : m.read (a % 4096) = m.read a := by
  simp [read]

/-- Memories that read alike at every address are equal. -/
@[ext]
theorem ext_read {m m' : Memory} (h : ∀ a, m.read a = m'.read a) : m = m' := by
  obtain ⟨cells⟩ := m
  obtain ⟨cells'⟩ := m'
  congr 1
  ext i hi
  have := h i
  simp only [read, Nat.mod_eq_of_lt hi] at this
  rw [this]

/-! ## Neighbouring cells -/

/-- The memory with the bytes written from an address on, counted round the end of memory. -/
def writeAll (m : Memory) (a : Nat) : List UInt8 → Memory
  | [] => m
  | b :: rest => (m.write a b).writeAll (a + 1) rest

/-- The `n` bytes from an address on, counted round the end of memory. -/
def bytes (m : Memory) (a n : Nat) : List UInt8 :=
  (List.range n).map fun k => m.read (a + k)

/-- The word at an address, its high byte first. -/
def word (m : Memory) (a : Nat) : UInt16 :=
  Word.ofBytes (m.read a) (m.read (a + 1))

theorem length_bytes (m : Memory) (a n : Nat) : (m.bytes a n).length = n := by
  simp [bytes]

theorem getElem_bytes (m : Memory) (a n k : Nat) (h : k < (m.bytes a n).length) :
    (m.bytes a n)[k] = m.read (a + k) := by
  simp [bytes]

/-- How many cells the address `c` lies after the address `a`, counted round the end of
memory. -/
def distance (a c : Nat) : Nat :=
  (c + (4096 - a % 4096)) % 4096

/-- A written block is read at its addresses, and the other cells keep theirs. -/
theorem read_writeAll (m : Memory) (a c : Nat) {data : List UInt8} (h : data.length ≤ 4096) :
    (m.writeAll a data).read c = (data[distance a c]?).getD (m.read c) := by
  induction data generalizing m a with
  | nil => simp [writeAll]
  | cons b rest ih =>
    simp only [List.length_cons] at h
    rw [writeAll, ih _ _ (by omega), read_write]
    by_cases hc : a % 4096 = c % 4096
    · have h0 : distance a c = 0 := by unfold distance; omega
      have h1 : distance (a + 1) c = 4095 := by unfold distance; omega
      rw [h0, h1, List.getElem?_eq_none (by omega), if_pos hc]
      rfl
    · have h1 : distance a c = distance (a + 1) c + 1 := by unfold distance; omega
      rw [h1, if_neg hc, List.getElem?_cons_succ]

/-! ## Regions of a memory -/

/-- The memory of zeros. -/
def zero : Memory :=
  ⟨Vector.replicate 4096 0⟩

/-- The memory in which only the glyphs stand. -/
def fresh : Memory :=
  zero.writeAll Region.charset.start glyphs

theorem read_zero (a : Nat) : zero.read a = 0 := by
  simp [zero, read]

/-- The bytes of a region. -/
def region (m : Memory) (r : Region) : List UInt8 :=
  m.bytes r.start r.size

/-- The memory with the data at the beginning of a region; data that are larger than the region
are refused. -/
def load (m : Memory) (r : Region) (data : List UInt8) : Except Fault Memory :=
  if data.length > r.size then
    .error (.romTooLarge data.length r.size)
  else
    .ok (m.writeAll r.start data)

/-- The memory with every byte of a region equal to `b`. -/
def fill (m : Memory) (r : Region) (b : UInt8) : Memory :=
  m.writeAll r.start (List.replicate r.size b)

/-- The memory with zeros in a region. -/
def clear (m : Memory) (r : Region) : Memory :=
  m.fill r 0

/-! ## Changes -/

/-- A change that the host may make to memory. -/
inductive Edit
  /-- Write one byte. -/
  | write (a : Nat) (b : UInt8)
  /-- Put data into a region. -/
  | load (r : Region) (data : List UInt8)
  /-- Put zeros into a region. -/
  | clear (r : Region)
  /-- Put one byte all over a region. -/
  | fill (r : Region) (b : UInt8)
  /-- Put glyphs and zeros everywhere. -/
  | reset
  deriving DecidableEq, Repr

/-- The memory after a change, unless the change is refused. -/
def Edit.apply (m : Memory) : Edit → Except Fault Memory
  | .write a b => .ok (m.write a b)
  | .load r data => m.load r data
  | .clear r => .ok (m.clear r)
  | .fill r b => .ok (m.fill r b)
  | .reset => .ok fresh

end Memory

end Chip8
