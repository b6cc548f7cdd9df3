import Chip8.Proofs.Footprint
import Chip8.Proofs.Restart

/-!
# Storing and loading registers

The first registers, up to one of them, can be stored in memory from the index on and loaded from
there. The two instructions undo each other wherever the index is, round the end of memory too.

* `Memory.writeAll_bytes`: writing what is there changes nothing.
* `Machine.block_eq_bytes`: registers that hold the bytes from an address on are those bytes.
* `Machine.step_store` and `Machine.step_load` are the two instructions as whole steps, and
  `Report.MovesBlock` is what both have in common.
* `Machine.store_load_inverse` puts these together.
-/

namespace Chip8

/-! ## Blocks of memory -/

namespace Memory

theorem bytes_succ (m : Memory) (a n : Nat) :
    m.bytes a (n + 1) = m.read a :: m.bytes (a + 1) n := by
  simp [bytes, List.range_succ_eq_map, Function.comp_def, Nat.add_assoc, Nat.add_comm 1]

theorem write_read (m : Memory) (a : Nat) : m.write a (m.read a) = m := by
  ext c
  rw [read_write]
  split
  · rename_i h
    rw [← m.read_mod, h, read_mod]
  · rfl

/-- Writing what is there changes nothing, however often it goes round the end of memory. -/
theorem writeAll_bytes (m : Memory) (a n : Nat) : m.writeAll a (m.bytes a n) = m := by
  induction n generalizing a with
  | zero => rfl
  | succ n ih => rw [bytes_succ, writeAll, write_read, ih]

end Memory

/-! ## Steps -/

/-- A step that moves the registers up to `x` to memory, or from there, comes out well and tells the
outside nothing. The index goes to the cell behind the block, unless the dialect leaves it where it
is. Nothing else is changed but memory or registers, and the program goes on to the next
instruction. -/
structure Report.MovesBlock (m : Machine) (x : Fin 16) (r : Report Unit) : Prop where
  answer : r.answer = .ok ()
  events : r.events = []
  machine : r.machine =
    { m with
      memory := r.machine.memory
      registers := r.machine.registers
      index := r.machine.index
      pc := Word.wrap (m.pc.toNat + 2)
      cycle := m.cycle + 1 }
  index : r.machine.index.toNat =
    if m.flags.dialect.keepIndex then m.index.toNat else (m.index.toNat + x + 1) % 4096

namespace Machine

theorem toNat_indexAfter_store (m : Machine) (x : Fin 16) :
    (m.indexAfter (.store x)).toNat =
      if m.flags.dialect.keepIndex then m.index.toNat else (m.index.toNat + x + 1) % 4096 := by
  simp only [indexAfter]
  split
  · rfl
  · rw [Word.toNat_wrap]

section Steps

variable {m : Machine} {x : Fin 16} (keypad : Keypad) (dice : UInt8)

/-- The step that stores registers. -/
theorem step_store (h : m.AboutTo (.store x)) :
    m.step keypad dice =
      { answer := .ok ()
        machine :=
          { m with
            memory := m.memory.writeAll m.index.toNat (m.block x)
            index := m.indexAfter (.store x)
            pc := Word.wrap (m.pc.toNat + 2)
            cycle := m.cycle + 1 }
        trace := m.nextLine } := by
  rw [step_of_execute h.active h.word rfl, advanced,
    pastBlock_eq]
  rfl

/-- The step that loads registers moves the index alike. -/
theorem step_load (h : m.AboutTo (.load x)) :
    m.step keypad dice =
      { answer := .ok ()
        machine :=
          { m with
            registers := (m.withBlock x).registers
            index := m.indexAfter (.store x)
            pc := Word.wrap (m.pc.toNat + 2)
            cycle := m.cycle + 1 }
        trace := m.nextLine } := by
  rw [step_of_execute h.active h.word rfl, advanced,
    pastBlock_eq]
  -- unfolded first, since the comparison of machines would evaluate the block
  unfold withBlock
  rfl

theorem movesBlock_step_store (h : m.AboutTo (.store x)) :
    (m.step keypad dice).MovesBlock m x := by
  rw [step_store keypad dice h]
  exact ⟨rfl, rfl, rfl, m.toNat_indexAfter_store x⟩

theorem movesBlock_step_load (h : m.AboutTo (.load x)) :
    (m.step keypad dice).MovesBlock m x := by
  rw [step_load keypad dice h]
  exact ⟨rfl, rfl, rfl, m.toNat_indexAfter_store x⟩

theorem memory_step_store (h : m.AboutTo (.store x)) :
    (m.step keypad dice).machine.memory = m.memory.writeAll m.index.toNat (m.block x) := by
  rw [step_store keypad dice h]

theorem registers_step_store (h : m.AboutTo (.store x)) :
    (m.step keypad dice).machine.registers = m.registers := by
  rw [step_store keypad dice h]

theorem memory_step_load (h : m.AboutTo (.load x)) :
    (m.step keypad dice).machine.memory = m.memory := by
  rw [step_load keypad dice h]

theorem register_step_load (h : m.AboutTo (.load x)) (z : Fin 16) :
    (m.step keypad dice).machine.register z =
      if z ≤ x then m.memory.read (m.index.toNat + z) else m.register z := by
  rw [step_load keypad dice h]
  exact m.register_withBlock x z

end Steps

/-- Registers that hold the bytes from an address on are those bytes. -/
theorem block_eq_bytes {m : Machine} {memory : Memory} {a : Nat} {x : Fin 16}
    (h : ∀ z ≤ x, m.register z = memory.read (a + z)) : m.block x = memory.bytes a (x + 1) := by
  refine List.ext_getElem (by rw [length_block, Memory.length_bytes]) fun k hk hk' => ?_
  have hx := x.isLt
  rw [length_block] at hk
  rw [Memory.getElem_bytes, ← h ⟨k, by omega⟩ (Nat.le_of_lt_succ hk)]
  exact m.getElem_block (r := ⟨k, by omega⟩) _

/-! ## Two steps -/

section TwoSteps

variable {m m' : Machine} {x y : Fin 16} (keypad keypad' : Keypad) (dice dice' : UInt8)

/-- Registers that have been stored are loaded again. -/
theorem register_store_load (h : m.AboutTo (.store x)) (h' : m'.AboutTo (.load x))
    (hmemory : m'.memory = (m.step keypad dice).machine.memory) (hindex : m'.index = m.index)
    {z : Fin 16} (hz : z ≤ x) : (m'.step keypad' dice').machine.register z = m.register z := by
  rw [register_step_load keypad' dice' h', if_pos hz, hmemory, memory_step_store keypad dice h,
    hindex, ← Memory.read_mod, read_writeAll_block _ _ _ hz]

/-- Storing registers that have been loaded from the same cells changes nothing. -/
theorem memory_load_store (h : m.AboutTo (.load x)) (h' : m'.AboutTo (.store x))
    (hmemory : m'.memory = m.memory) (hindex : m'.index = m.index)
    (hregister : ∀ z ≤ x, m'.register z = (m.step keypad dice).machine.register z) :
    (m'.step keypad' dice').machine.memory = m.memory := by
  have hblock : m'.block x = m.memory.bytes m.index.toNat (x + 1) := by
    refine block_eq_bytes fun z hz => ?_
    rw [hregister z hz, register_step_load keypad dice h, if_pos hz]
  rw [memory_step_store keypad' dice' h', hmemory, hindex, hblock, Memory.writeAll_bytes]

/-- Registers that are stored after others stand right behind them, and those stay where they are:
two blocks are too small to meet round the end of memory. -/
theorem read_store_store (h : m.AboutTo (.store x)) (h' : m'.AboutTo (.store y))
    (hmemory : m'.memory = (m.step keypad dice).machine.memory)
    (hindex : m'.index.toNat = (m.index.toNat + x + 1) % 4096) :
    let memory := (m'.step keypad' dice').machine.memory
    (∀ z ≤ x, memory.read ((m.index.toNat + z) % 4096) = m.register z) ∧
      ∀ z ≤ y, memory.read ((m.index.toNat + (x + 1) + z) % 4096) = m'.register z := by
  have hx := x.isLt
  have hy := y.isLt
  intro memory
  have heq : memory = _ := memory_step_store keypad' dice' h'
  rw [heq, hmemory, memory_step_store keypad dice h, hindex]
  refine ⟨fun z hz => ?_, fun z hz => ?_⟩
  · have hout : ¬Memory.InBlock ((m.index.toNat + x + 1) % 4096) (m'.block y).length
        (Memory.cell (m.index.toNat + z)) := by
      rintro ⟨k, hk, hc⟩
      rw [length_block] at hk
      rw [Memory.val_cell] at hc
      have hle : z.val ≤ x.val := hz
      omega
    exact (Memory.read_writeAll_of_not_inBlock _ hout).trans (m.read_writeAll_block _ _ hz)
  · have hmod : (m.index.toNat + (x + 1) + z) % 4096 =
        ((m.index.toNat + x + 1) % 4096 + z) % 4096 := by omega
    rw [hmod, read_writeAll_block _ _ _ hz]

end TwoSteps

/-- **Storing and loading registers undo each other**, wherever the index is; the cells are counted
round the end of memory. The machine `m'` may be whatever has become of `m` after the first step.

* Registers that have been stored come back when they are loaded from the same cells, whatever they
  hold by then. The higher registers and memory stay as they are.
* Storing after storing puts the second block right behind the first one, if the dialect lets the
  index move.
* Registers that have been loaded leave memory as it is when they are stored to the same cells. -/
theorem store_load_inverse (m : Machine) (keypad : Keypad) (dice : UInt8) (x : Fin 16) :
    let r := m.step keypad dice
    let after := r.machine
    (m.AboutTo (.store x) →
      r.MovesBlock m x ∧ after.registers = m.registers ∧
      (∀ (m' : Machine) keypad' dice', m'.AboutTo (.load x) → m'.memory = after.memory →
        m'.index = m.index →
        let r' := m'.step keypad' dice'
        r'.MovesBlock m' x ∧ r'.machine.memory = after.memory ∧
          (∀ z ≤ x, r'.machine.register z = m.register z) ∧
          ∀ z, x < z → r'.machine.register z = m'.register z) ∧
      ∀ (m' : Machine) keypad' dice' y, m.flags.dialect.keepIndex = false →
        m'.AboutTo (.store y) → m'.memory = after.memory → m'.index = after.index →
        let r' := m'.step keypad' dice'
        r'.MovesBlock m' y ∧
          (∀ z ≤ x, r'.machine.memory.read ((m.index.toNat + z) % 4096) = m.register z) ∧
          ∀ z ≤ y,
            r'.machine.memory.read ((m.index.toNat + (x + 1) + z) % 4096) = m'.register z) ∧
    (m.AboutTo (.load x) →
      r.MovesBlock m x ∧ after.memory = m.memory ∧
      ∀ (m' : Machine) keypad' dice', m'.AboutTo (.store x) → m'.memory = after.memory →
        m'.index = m.index → (∀ z ≤ x, m'.register z = after.register z) →
        let r' := m'.step keypad' dice'
        r'.MovesBlock m' x ∧ r'.machine.memory = m.memory) := by
  intro r after
  refine ⟨fun h =>
      ⟨movesBlock_step_store keypad dice h, registers_step_store keypad dice h, ?_, ?_⟩,
    fun h => ⟨movesBlock_step_load keypad dice h, memory_step_load keypad dice h, ?_⟩⟩
  · intro m' keypad' dice' h' hmemory hindex
    refine ⟨movesBlock_step_load keypad' dice' h', ?_, fun z hz => ?_, fun z hz => ?_⟩
    · exact (memory_step_load keypad' dice' h').trans hmemory
    · exact register_store_load keypad keypad' dice dice' h h' hmemory hindex hz
    · rw [register_step_load keypad' dice' h', if_neg (Fin.not_le.2 hz)]
  · intro m' keypad' dice' y hkeep h' hmemory hindex
    refine ⟨movesBlock_step_store keypad' dice' h', ?_⟩
    apply read_store_store keypad keypad' dice dice' h h' hmemory
    rw [hindex, (movesBlock_step_store keypad dice h).index, hkeep]
    rfl
  · intro m' keypad' dice' h' hmemory hindex hregister
    have hkept : after.memory = m.memory := memory_step_load keypad dice h
    exact ⟨movesBlock_step_store keypad' dice' h',
      memory_load_store keypad keypad' dice dice' h h' (hmemory.trans hkept) hindex hregister⟩

/-- A machine whose program stores two registers and loads them, with the index at the last cell. -/
def keeping : Machine :=
  { ((((new {}).load [0xf1, 0x55, 0xf1, 0x65]).machine).withRegister 0 7).withRegister 1 8 with
    index := 0xfff }

/-- The machine behind the first instruction, with the index set back and the registers lost. -/
def kept (memory : Memory) : Machine :=
  { keeping with memory := memory, registers := Vector.replicate 16 0, pc := 0x202 }

theorem memory_kept (memory : Memory) : (kept memory).memory = memory := rfl

/-- One of the registers of `keeping` is stored in the last cell and the other one in the first. -/
theorem store_load_inverse_keeping :
    let lost := kept (keeping.step Keypad.idle 0).machine.memory
    keeping.AboutTo (.store 1) ∧ lost.AboutTo (.load 1) ∧
      (lost.step Keypad.idle 0).machine.register 0 = 7 ∧
      (lost.step Keypad.idle 0).machine.register 1 = 8 := by
  intro lost
  have hrom : keeping.memory.HoldsOnly [0xf1, 0x55, 0xf1, 0x65] :=
    Memory.holdsOnly_writeAll (by decide)
  have hstore : keeping.AboutTo (.store 1) :=
    ⟨⟨rfl, rfl⟩, fetch_of_holdsOnly (k := 0) hrom rfl (by decide)⟩
  have hmemory : lost.memory = (keeping.step Keypad.idle 0).machine.memory := memory_kept _
  have hread : ∀ c : Fin 4096, 0x202 ≤ c.val → c.val ≤ 0x203 →
      lost.memory.read c = keeping.memory.read c := by
    intro c hlow hhigh
    rw [hmemory, memory_step_store Keypad.idle 0 hstore]
    refine Memory.read_writeAll_of_not_inBlock _ ?_
    rintro ⟨k, hk, hc⟩
    change k < 2 at hk
    change c.val = (0xfff + k) % 4096 at hc
    omega
  have hload : lost.AboutTo (.load 1) := by
    refine ⟨⟨rfl, rfl⟩, ?_⟩
    have hhigh : lost.memory.read 0x202 = 0xf1 :=
      (hread 0x202 (by decide) (by decide)).trans (hrom.rom_eq 2 (by decide))
    have hlow : lost.memory.read 0x203 = 0x65 :=
      (hread 0x203 (by decide) (by decide)).trans (hrom.rom_eq 3 (by decide))
    show Word.ofBytes (lost.memory.read 0x202) (lost.memory.read 0x203) = _
    rw [hhigh, hlow]
    rfl
  obtain ⟨hstored, -⟩ := store_load_inverse keeping Keypad.idle 0 1
  obtain ⟨-, -, hback, -⟩ := hstored hstore
  obtain ⟨-, -, hregister, -⟩ := hback lost Keypad.idle 0 hload hmemory rfl
  exact ⟨hstore, hload, hregister 0 (by decide), hregister 1 (by decide)⟩

end Machine

end Chip8
