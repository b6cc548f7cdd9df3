import Chip8.Proofs.LatestByte
import Chip8.Proofs.Regular

/-!
# Starting over

A program that is loaded finds the machine as if it were new, whatever was done with it before, and
so does a program that a reset brings back. All that is left of the history is the flags and, for a
reset, the program that was accepted last.

* `reset_machine` and `load_of_le` say that the machine after a reset, and after loading, is the one
  that a new machine becomes by loading the same program.
* `Memory.holdsOnly_writeAll` says what stands in its memory.
* `rom_run` says which program a machine remembers after a run.
* `restart_forgets` puts these together.
-/

namespace Chip8

/-! ## The memory that a program finds -/

/-- Memory holds a program at the beginning of its region, the glyphs, and zeros everywhere
else. -/
structure Memory.HoldsOnly (m : Memory) (rom : List UInt8) : Prop where
  rom_eq : ∀ (k : Nat) (h : k < rom.length), m.read (Region.program.start + k) = rom[k]
  glyphs_eq : ∀ (k : Nat) (h : k < glyphs.length),
    m.read (Region.charset.start + k) = glyphs[k]
  zero_elsewhere : ∀ a < memorySize,
    ¬(Region.charset.start ≤ a ∧ a < Region.charset.stop) →
    ¬(Region.program.start ≤ a ∧ a < Region.program.start + rom.length) → m.read a = 0

namespace Memory

/-- A new memory with a program in its region holds nothing else. -/
theorem holdsOnly_writeAll {rom : List UInt8} (h : rom.length ≤ Region.program.size) :
    (fresh.writeAll Region.program.start rom).HoldsOnly rom := by
  have hsize : Region.program.start + Region.program.size = memorySize := rfl
  have hglyphs : Region.charset.start + glyphs.length = Region.charset.stop := rfl
  have hbelow : Region.charset.stop ≤ Region.program.start := by decide
  have hread : ∀ a < memorySize, (fresh.writeAll Region.program.start rom).read a =
      if Region.program.start ≤ a ∧ a < Region.program.start + rom.length then
        rom.getD (a - Region.program.start) 0
      else if Region.charset.start ≤ a ∧ a < Region.charset.stop then
        glyphs.getD (a - Region.charset.start) 0
      else 0 := by
    intro a ha
    have hmod : a % 4096 = a := Nat.mod_eq_of_lt ha
    rw [read_writeAll_region _ h, read_fresh, freshByte, val_cell, hmod]
  refine ⟨fun k hk => ?_, fun k hk => ?_, fun a ha hcharset hprogram => ?_⟩
  · rw [hread _ (by omega), if_pos (by omega)]
    simp [hk]
  · rw [hread _ (by omega), if_neg (by omega), if_pos (by omega)]
    simp [hk]
  · rw [hread a ha, if_neg hprogram, if_neg hcharset]

end Memory

/-- While the program counter is inside a program that stands in memory, its words are fetched. -/
theorem Machine.fetch_of_holdsOnly {m : Machine} {rom : List UInt8} (h : m.memory.HoldsOnly rom)
    {k : Nat} (hpc : m.pc.toNat = Region.program.start + k) (hk : k + 1 < rom.length) :
    m.fetch = Word.ofBytes rom[k] rom[k + 1] := by
  rw [fetch, Memory.word, hpc, h.rom_eq k (by omega), Nat.add_assoc, h.rom_eq (k + 1) hk]

/-! ## The program that is remembered -/

/-- The program that is accepted at a moment, if one is loaded then and not refused. -/
def Moment.accepted? (t : Moment) : Option (List UInt8) :=
  match t.action.operation, t.report.answer with
  | .load rom, .ok _ => some rom
  | _, _ => none

/-- The program that is accepted last among some moments, and the empty one if there is none. -/
def lastAccepted (ts : List Moment) : List UInt8 :=
  (ts.filterMap Moment.accepted?).getLastD []

namespace Machine

theorem load_of_le (m : Machine) {rom : List UInt8} (h : rom.length ≤ Region.program.size) :
    m.load rom = { m with rom := rom }.reset :=
  if_neg (Nat.not_lt.2 h)

theorem load_of_lt (m : Machine) {rom : List UInt8} (h : Region.program.size < rom.length) :
    m.load rom = .refused (.romTooLarge rom.length Region.program.size) m :=
  if_pos h

theorem accepted?_load (m : Machine) (s : Surroundings) {rom : List UInt8}
    (h : rom.length ≤ Region.program.size) : Moment.accepted? ⟨m, s, .load rom⟩ = some rom := by
  rw [Moment.accepted?, Moment.report_load, m.load_of_le h]
  rfl

theorem answer_load_eq_ok_iff (m : Machine) (rom : List UInt8) :
    (m.load rom).answer = .ok () ↔ rom.length ≤ Region.program.size := by
  rcases Nat.lt_or_ge Region.program.size rom.length with hlt | hle
  · rw [m.load_of_lt hlt]
    exact iff_of_false nofun (Nat.not_le.2 hlt)
  · rw [m.load_of_le hle]
    exact iff_of_true rfl hle

theorem exists_answer_load_eq_error_iff (m : Machine) (rom : List UInt8) :
    (∃ fault, (m.load rom).answer = .error fault) ↔ Region.program.size < rom.length := by
  rcases Nat.lt_or_ge Region.program.size rom.length with hlt | hle
  · rw [m.load_of_lt hlt]
    exact iff_of_true ⟨_, rfl⟩ hlt
  · rw [m.load_of_le hle]
    exact iff_of_false nofun (Nat.not_lt.2 hle)

/-- A single action leaves the program that it brings in, if that is accepted, and else the one that
was there. -/
theorem rom_act (m : Machine) {a : Action} (h : a.operation.IsSingle) :
    (m.act a).machine.rom = (Moment.accepted? ⟨m, a⟩).getD m.rom := by
  obtain ⟨s, o⟩ := a
  cases o with
  | load rom =>
    have hact : m.act ⟨s, .load rom⟩ = (m.load rom).map fun _ => none := rfl
    simp only [Moment.accepted?, Moment.report, hact]
    rcases Nat.lt_or_ge Region.program.size rom.length with hlt | hle
    · rw [m.load_of_lt hlt]
      rfl
    · rw [m.load_of_le hle]
      rfl
  | step =>
    show (m.step s.keypad (s.dice 0)).machine.rom = m.rom
    rw [machine_step]
  | multistep n => exact h.elim
  | tick =>
    show m.tick.machine.rom = m.rom
    rw [machine_tick]
  | deliverKey key =>
    show (m.deliverKey key).machine.rom = m.rom
    rw [machine_deliverKey]
  | setRegister register value =>
    show (m.setRegister register value).machine.rom = m.rom
    rw [machine_setRegister]
  | editMemory edit =>
    show (m.editMemory edit).machine.rom = m.rom
    rw [machine_editMemory]
  | reset | setFlags flags => rfl

/-- **A machine remembers the program that was accepted last.** -/
theorem rom_run (m : Machine) (actions : List Action) :
    (m.run actions).machine.rom =
      ((m.moments actions).filterMap Moment.accepted?).getLastD m.rom := by
  refine moments_induction
    (P := fun m moments r => r.machine.rom = (moments.filterMap Moment.accepted?).getLastD m.rom)
    (fun m => rfl) (fun {t _ r} hs hrest => ?_) m actions
  have hfirst : t.report.machine.rom = t.accepted?.getD t.machine.rom := t.machine.rom_act hs
  show r.machine.rom = _
  rw [hrest, hfirst, List.filterMap_cons]
  cases t.accepted? with
  | none => rfl
  | some rom => rw [List.getLastD_cons]; rfl

/-! ## Machines that start over -/

/-- The machine that finds a program and nothing else. -/
theorem load_new (flags : Flags) {rom : List UInt8} (h : rom.length ≤ Region.program.size) :
    ((new flags).load rom).machine =
      { new flags with memory := Memory.fresh.writeAll Region.program.start rom, rom := rom } := by
  rw [load_of_le _ h]
  rfl

/-- After a reset a machine is what a new one becomes by loading the same program. -/
theorem reset_machine {m : Machine} (h : m.Regular) :
    m.reset.machine = ((new m.flags).load m.rom).machine := by
  have hfont : m.font = (new m.flags).font := h.font_eq
  rw [load_new _ h.length_rom_le, reset, hfont]
  rfl

theorem load_machine {m : Machine} (h : m.Regular) {rom : List UInt8}
    (hrom : rom.length ≤ Region.program.size) :
    (m.load rom).machine = ((new m.flags).load rom).machine := by
  have hr : { m with rom := rom }.Regular := { h with length_rom_le := hrom }
  rw [load_of_le _ hrom]
  exact reset_machine hr

theorem reset_reset (m : Machine) : m.reset.machine.reset.machine = m.reset.machine := rfl

/-- **Starting over forgets the history.** Take any machine that a run can bring about. A program is
refused exactly if it is longer than 3584 bytes, and then nothing changes and nothing is told.
Otherwise the machine becomes what a new one with the same flags becomes by loading the program, and
only the program and the glyphs stand in memory. A reset makes of it what a new machine becomes by
loading the program that was accepted last. Both times a tone that is heard is stopped, and then the
screen is cleared. So two machines that have the same flags and have just accepted the same program
report the same of whatever is done later. -/
theorem restart_forgets (flags : Flags) (actions : List Action) :
    let m := ((new flags).run actions).machine
    let told : List Event := (if m.timers.sound ≠ 0 then [.toneStop] else []) ++ [.cleared]
    let last := lastAccepted ((new flags).moments actions)
    (∀ rom,
      ((∃ fault, (m.load rom).answer = .error fault) ↔ 3584 < rom.length) ∧
      (3584 < rom.length → (m.load rom).machine = m ∧ (m.load rom).events = []) ∧
      (rom.length ≤ 3584 →
        (m.load rom).machine = ((new m.flags).load rom).machine ∧
        (m.load rom).machine.memory.HoldsOnly rom ∧
        (m.load rom).events = told)) ∧
    (m.reset.answer = .ok () ∧
      ((new m.flags).load last).answer = .ok () ∧
      m.reset.machine = ((new m.flags).load last).machine ∧
      m.reset.machine.reset.machine = m.reset.machine ∧
      m.reset.events = told) ∧
    ∀ flags' actions' rom,
      let m' := ((new flags').run actions').machine
      m'.flags = m.flags → (m.load rom).answer = .ok () → (m'.load rom).answer = .ok () →
        ∀ later, (m'.load rom).machine.reports later = (m.load rom).machine.reports later := by
  intro m told last
  have hr : m.Regular := regular_run flags actions
  have hlast : m.rom = last := rom_run (new flags) actions
  refine ⟨fun rom => ⟨m.exists_answer_load_eq_error_iff rom, fun hlt => ?_, fun hle => ?_⟩, ?_,
    fun flags' actions' rom => ?_⟩
  · rw [m.load_of_lt hlt]
    exact ⟨rfl, rfl⟩
  · refine ⟨load_machine hr hle, ?_, by rw [m.load_of_le hle]; rfl⟩
    rw [load_machine hr hle, load_new _ hle]
    exact Memory.holdsOnly_writeAll hle
  · rw [← hlast]
    exact ⟨rfl, (answer_load_eq_ok_iff _ _).2 hr.length_rom_le, reset_machine hr, m.reset_reset,
      rfl⟩
  · intro m' hflags hm _ later
    have hle := (answer_load_eq_ok_iff _ _).1 hm
    have hr' : m'.Regular := regular_run flags' actions'
    rw [load_machine hr' hle, load_machine hr hle, hflags]

end Machine

end Chip8
