import Chip8.Proofs.Execution

/-!
# Regular machines

The program counter, the index and the return addresses lie inside memory, the stack has room for
what is on it, and the program fits its region. A machine is made regular (`regular_new`), every
change keeps it so (`Regular.of_change`), and so it is after every run (`regular_run`).
-/

namespace Chip8

namespace Machine

/-- What holds of a machine whatever has been done with it. -/
structure Regular (m : Machine) : Prop where
  pc_lt : m.pc.toNat < memorySize
  index_lt : m.index.toNat < memorySize
  length_stack_le : m.stack.length ≤ stackDepth
  stack_lt : ∀ a ∈ m.stack, a.toNat < memorySize
  length_rom_le : m.rom.length ≤ Region.program.size
  font_eq : m.font = 0x50

theorem regular_new (flags : Flags) : (new flags).Regular where
  pc_lt := (by decide : 0x200 < memorySize)
  index_lt := (by decide : 0 < memorySize)
  length_stack_le := Nat.zero_le _
  stack_lt := fun _ h => absurd h List.not_mem_nil
  length_rom_le := Nat.zero_le _
  font_eq := rfl

theorem regular_reset {m : Machine} (hrom : m.rom.length ≤ Region.program.size)
    (hfont : m.font = 0x50) : m.reset.machine.Regular where
  pc_lt := (by decide : 0x200 < memorySize)
  index_lt := (by decide : 0 < memorySize)
  length_stack_le := Nat.zero_le _
  stack_lt := fun _ h => absurd h List.not_mem_nil
  length_rom_le := hrom
  font_eq := hfont

/-! ## The parts of an effect -/

theorem length_stackAfter_le {m : Machine} {keypad : Keypad} {dice : UInt8} {i : Instruction}
    {e : Effect} (h : m.Regular) (hi : m.execute keypad dice i = .ok e) :
    (m.stackAfter i).length ≤ stackDepth := by
  have hm := h.length_stack_le
  cases i with
  | call a => exact (callTo_eq_ok_iff.1 hi).1
  | ret =>
    show m.stack.tail.length ≤ stackDepth
    rw [List.length_tail]
    omega
  | _ => exact hm

theorem stackAfter_lt {m : Machine} (h : m.Regular) (i : Instruction) :
    ∀ a ∈ m.stackAfter i, a.toNat < memorySize := by
  cases i with
  | call a =>
    intro b hb
    rcases List.mem_cons.1 hb with rfl | hb
    · exact Word.toNat_wrap_lt _
    · exact h.stack_lt b hb
  | ret => exact fun a ha => h.stack_lt a (List.mem_of_mem_tail ha)
  | _ => exact h.stack_lt

theorem toNat_glyphAddress {m : Machine} (h : m.Regular) (b : UInt8) :
    (m.glyphAddress b).toNat = 0x50 + 5 * (b.toNat % 16) := by
  rw [glyphAddress, h.font_eq, UInt16.toNat_ofNat']
  show (0x50 + 5 * (b.toNat % 16)) % 2 ^ 16 = _
  omega

theorem indexAfter_lt {m : Machine} (h : m.Regular) (i : Instruction) :
    (m.indexAfter i).toNat < memorySize := by
  have hm := h.index_lt
  cases i with
  | setIndex a =>
    show (UInt16.ofNat a).toNat < memorySize
    rw [UInt16.toNat_ofNat', memorySize]
    omega
  | addIndex x => exact Word.toNat_wrap_lt _
  | glyph x =>
    show (m.glyphAddress (m.register x)).toNat < memorySize
    rw [toNat_glyphAddress h, memorySize]
    omega
  | store x | load x =>
    simp only [indexAfter]
    split
    · exact hm
    · exact Word.toNat_wrap_lt _
  | _ => exact hm

theorem toNat_target_lt (f : Flow) (pc : UInt16) : (f.target pc).toNat < memorySize := by
  cases f <;> exact Word.toNat_wrap_lt _

/-! ## Changes and runs -/

theorem Regular.advanced {m : Machine} {keypad : Keypad} {dice : UInt8} {i : Instruction}
    {e : Effect} (h : m.Regular) (hi : m.execute keypad dice i = .ok e) :
    (m.advanced e).Regular := by
  have hm := machine_of_execute hi
  rw [Machine.advanced, hm]
  exact {
    pc_lt := toNat_target_lt _ _
    index_lt := indexAfter_lt h i
    length_stack_le := length_stackAfter_le h hi
    stack_lt := stackAfter_lt h i
    length_rom_le := h.length_rom_le
    font_eq := h.font_eq }

/-- Every change keeps a machine regular. -/
theorem Regular.of_change {m m' : Machine} {events : List Event} (h : m.Regular)
    (hc : m.Change m' events) : m'.Regular := by
  cases hc with
  | none => exact h
  | executed _ _ hi => exact h.advanced hi
  | ticked | registerSet | memoryEdited | flagsSet => exact { h with }
  | reset hrom =>
    refine regular_reset ?_ h.font_eq
    rcases hrom with rfl | hrom
    · exact h.length_rom_le
    · exact hrom
  | keyDelivered => exact { h with pc_lt := Word.toNat_wrap_lt _ }

theorem Regular.run {m : Machine} (h : m.Regular) (actions : List Action) :
    (m.run actions).machine.Regular :=
  run_induction (P := fun m _ => m.Regular) h (fun h hc => h.of_change hc) actions

/-- A regular machine is regular at all moments of a run. -/
theorem Regular.of_mem_moments {m : Machine} (h : m.Regular) {actions : List Action} {t : Moment}
    (ht : t ∈ m.moments actions) : t.machine.Regular :=
  (forall_mem_walk h (fun m _ ha hm => hm.of_change (m.change_act (isSingle_of_mem_singles ha)))
    t ht).1

/-- **A machine is regular after every run from its construction.** -/
theorem regular_run (flags : Flags) (actions : List Action) :
    ((new flags).run actions).machine.Regular :=
  (regular_new flags).run actions

end Machine

end Chip8
