import Chip8.Memory.Basic

/-!
# The latest byte

Memory is a map from the addresses modulo 4096 to bytes. A change puts a byte into each cell of its
footprint and leaves the others alone, so a cell holds the latest byte that was put into it, or what
a fresh memory has there.

* `Memory.Edit.byte?` says which byte a change puts into a cell, if any, and `Memory.latest` which
  one is the latest after several changes.
* `Memory.read_writeAll_region` reads a block at the beginning of a region, which does not go round
  the end of memory.
* `Memory.read_edited` is about one change, and `Memory.read_editedBy` about several of them.
* `Memory.latest_byte` says that every way to look at memory shows the latest bytes.
-/

namespace Chip8

namespace Memory

/-! ## The map -/

theorem mod_lt (a : Nat) : a % 4096 < 4096 :=
  Nat.mod_lt a (by decide)

/-- The cell at an address, counted round the end of memory. -/
def cell (a : Nat) : Fin 4096 :=
  ⟨a % 4096, mod_lt a⟩

@[simp]
theorem val_cell (a : Nat) : (cell a).val = a % 4096 := rfl

/-- The byte that a fresh memory has in a cell: the glyphs stand in their region, and zeros
elsewhere. -/
def freshByte (c : Fin 4096) : UInt8 :=
  if Region.charset.start ≤ c.val ∧ c.val < Region.charset.stop then
    glyphs.getD (c - Region.charset.start) 0
  else 0

/-- The byte that a change puts into a cell, if the cell is in its footprint. That is the cell of a
write; as many cells from the beginning of a region on as there are data, if these are not refused;
all cells of a region; or all of memory. -/
def Edit.byte? (c : Fin 4096) : Edit → Option UInt8
  | .write a b => if a % 4096 = c.val then some b else none
  | .load r data =>
    if data.length ≤ r.size ∧ r.start ≤ c.val ∧ c.val < r.start + data.length then
      data[c - r.start]?
    else none
  | .clear r => if r.start ≤ c.val ∧ c.val < r.stop then some 0 else none
  | .fill r b => if r.start ≤ c.val ∧ c.val < r.stop then some b else none
  | .reset => some (freshByte c)

/-- The byte at an address of a fresh memory after some changes: the last one that they put into its
cell, or what was there from the beginning. -/
def latest (edits : List Edit) (a : Nat) : UInt8 :=
  (edits.filterMap (Edit.byte? (cell a))).getLastD (freshByte (cell a))

/-! ## Changes of a memory -/

/-- The memory after a change; one that is refused leaves it as it was. -/
def edited (m : Memory) (e : Edit) : Memory :=
  match e.apply m with
  | .ok m' => m'
  | .error _ => m

/-- The memory after some changes. -/
def editedBy (m : Memory) (edits : List Edit) : Memory :=
  edits.foldl edited m

/-- A region does not go round the end of memory. -/
theorem start_add_size_le (r : Region) : r.start + r.size ≤ 4096 := by
  cases r <;> decide

theorem start_add_size (r : Region) : r.start + r.size = r.stop := by
  cases r <;> rfl

/-- Data that fit into a region are read where the region begins, in order, and the other cells keep
theirs. -/
theorem read_writeAll_region (m : Memory) {r : Region} {data : List UInt8}
    (h : data.length ≤ r.size) (a : Nat) :
    (m.writeAll r.start data).read a =
      if r.start ≤ a % 4096 ∧ a % 4096 < r.start + data.length then
        data.getD (a % 4096 - r.start) 0
      else m.read a := by
  have hsize := start_add_size_le r
  rw [read_writeAll _ _ _ (by omega)]
  split
  · rename_i hin
    have hdistance : distance r.start a = a % 4096 - r.start := by unfold distance; omega
    have hlt : a % 4096 - r.start < data.length := by omega
    simp [hdistance, hlt]
  · rename_i hout
    have hle : data.length ≤ distance r.start a := by unfold distance; omega
    simp [hle]

/-- A fresh memory holds the glyphs and zeros. -/
theorem read_fresh (a : Nat) : fresh.read a = freshByte (cell a) := by
  rw [fresh, read_writeAll_region _ (Nat.le_of_eq length_glyphs), read_zero]
  rfl

theorem load_of_le (m : Memory) {r : Region} {data : List UInt8} (h : data.length ≤ r.size) :
    m.load r data = .ok (m.writeAll r.start data) :=
  if_neg (Nat.not_lt.2 h)

theorem load_of_lt (m : Memory) {r : Region} {data : List UInt8} (h : r.size < data.length) :
    m.load r data = .error (.romTooLarge data.length r.size) :=
  if_pos h

theorem read_fill (m : Memory) (r : Region) (b : UInt8) (a : Nat) :
    (m.fill r b).read a = if r.start ≤ a % 4096 ∧ a % 4096 < r.stop then b else m.read a := by
  have hlength : (List.replicate r.size b).length = r.size := List.length_replicate
  rw [fill, read_writeAll_region _ (Nat.le_of_eq hlength), hlength, start_add_size]
  have hstop := start_add_size r
  split
  · have hlt : a % 4096 - r.start < r.size := by omega
    simp [List.getD_eq_getElem?_getD, hlt]
  · rfl

/-- **A change puts its bytes into its footprint**, and leaves the other cells alone. -/
theorem read_edited (m : Memory) (e : Edit) (a : Nat) :
    (m.edited e).read a = (e.byte? (cell a)).getD (m.read a) := by
  cases e with
  | write c b =>
    show (m.write c b).read a = _
    rw [read_write, Edit.byte?, val_cell]
    split <;> rfl
  | load r data =>
    rcases Nat.lt_or_ge r.size data.length with hlt | hle
    · have hnone : Edit.byte? (cell a) (.load r data) = none :=
        if_neg fun h => by omega
      simp [edited, Edit.apply, m.load_of_lt hlt, hnone]
    · simp only [edited, Edit.apply, m.load_of_le hle, read_writeAll_region m hle, Edit.byte?,
        val_cell, hle, true_and]
      split
      · have hlt : a % 4096 - r.start < data.length := by omega
        simp [hlt]
      · rfl
  | clear r | fill r b =>
    refine (m.read_fill r _ a).trans ?_
    rw [Edit.byte?, val_cell]
    split <;> rfl
  | reset => exact read_fresh a

/-- Several changes leave in each cell the last byte that they put into it. -/
theorem read_editedBy (m : Memory) (edits : List Edit) (a : Nat) :
    (m.editedBy edits).read a =
      (edits.filterMap (Edit.byte? (cell a))).getLastD (m.read a) := by
  induction edits generalizing m with
  | nil => rfl
  | cons e edits ih =>
    show ((m.edited e).editedBy edits).read a = _
    rw [ih, read_edited, List.filterMap_cons]
    cases e.byte? (cell a) with
    | none => rfl
    | some b => rw [List.getLastD_cons]; rfl

/-! ## Looking at memory -/

theorem region_eq (m : Memory) (r : Region) :
    m.region r = (m.cells.toList.drop r.start).take r.size := by
  have hsize := start_add_size_le r
  have hlength : (m.cells.toList.drop r.start).length = 4096 - r.start := by simp
  refine List.ext_getElem ?_ fun k hk _ => ?_
  · rw [region, length_bytes, List.length_take, hlength]
    omega
  · have hlt : k < r.size := by simpa [region, length_bytes] using hk
    have hmod : (r.start + k) % 4096 = r.start + k := Nat.mod_eq_of_lt (by omega)
    simp [region, getElem_bytes, read, hmod]

/-- **Memory holds the latest bytes.** Take a fresh memory after any changes, some of which may be
refused.

* At every address, counted round the end of memory, the latest byte is read.
* Data are refused exactly if they are larger than their region, and then nothing is changed.
* A word is made of the latest bytes at its address and the next, and so are any number of bytes
  from an address on, which may go round the end of memory more than once. A region shows the latest
  bytes between its ends.
* The test for equality with another memory says whether that one has the latest bytes too. -/
theorem latest_byte (edits : List Edit) :
    let m := fresh.editedBy edits
    (∀ a, m.read a = latest edits a) ∧
    (∀ r data, ((∃ fault, m.load r data = .error fault) ↔ r.size < data.length) ∧
      (r.size < data.length → m.edited (.load r data) = m)) ∧
    (∀ a, (m.word a).toNat = 256 * (latest edits a).toNat + (latest edits (a + 1)).toNat) ∧
    (∀ a n, m.bytes a n = (List.range n).map fun k => latest edits (a + k)) ∧
    (∀ r, m.region r = (m.cells.toList.drop r.start).take r.size ∧
      m.region r = (List.range r.size).map fun k => latest edits (r.start + k)) ∧
    ∀ m' : Memory, (m == m') = true ↔ ∀ a < 4096, m'.read a = latest edits a := by
  intro m
  have hread : ∀ a, m.read a = latest edits a := by
    intro a
    rw [latest, ← read_fresh, read_editedBy]
  have hbytes : ∀ a n, m.bytes a n = (List.range n).map fun k => latest edits (a + k) := by
    intro a n
    simp only [bytes, hread]
  refine ⟨hread, fun r data => ⟨?_, fun hlt => ?_⟩, fun a => ?_, hbytes,
    fun r => ⟨m.region_eq r, hbytes _ _⟩, fun m' => ?_⟩
  · rcases Nat.lt_or_ge r.size data.length with hlt | hle
    · rw [m.load_of_lt hlt]
      exact iff_of_true ⟨_, rfl⟩ hlt
    · simp [m.load_of_le hle, Nat.not_lt.2 hle]
  · rw [edited, Edit.apply, m.load_of_lt hlt]
  · rw [word, Word.toNat_ofBytes, hread, hread]
  · rw [beq_iff_eq]
    constructor
    · rintro rfl a -
      exact hread a
    · intro h
      ext a
      rw [← m'.read_mod, h _ (mod_lt a), ← hread, read_mod]

/-- Data that are too large for a region leave there what was written before. -/
example : latest [.write 0x1050 9, .load .charset (List.replicate 81 7)] 0x50 = 9 := by decide

end Memory

end Chip8
