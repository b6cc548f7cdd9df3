import Chip8.Instruction.Inverse
import Chip8.Proofs.Run

/-!
# What can happen to a machine

`Machine.execute` gives the whole effect of an instruction at once. Here it is read part by part:
what becomes of memory, of the screen, of the stack and so on. Above that stands the list of all
the things that can happen to a machine in a single operation, on which every statement about runs
rests.

* `machine_of_execute` and `events_of_execute` give the effect of an instruction part by part.
* `Machine.stepCase` distinguishes the four ways in which a step ends.
* `Machine.Change` lists what a single operation can do, and `change_act` says that it does nothing
  else.
* `tick_of_not_pause` and `deliverKey_of_waiting` are laws of operations, each with its siblings.
* `Moment.Executes` says that a step executes an instruction, and `Moment.executes` decides it.
* `run_induction` is the principle for statements about every run.
-/

namespace Chip8

namespace Machine

/-! ## The parts of an effect -/

/-- The memory after an instruction. -/
def memoryAfter (m : Machine) : Instruction → Memory
  | .decimal x => m.memory.writeAll m.index.toNat (decimalDigits (m.register x))
  | .store x => m.memory.writeAll m.index.toNat (m.block x)
  | _ => m.memory

/-- What a drawing instruction does to the screen. -/
def drawing (m : Machine) (x y n : Fin 16) : Screen.Drawing :=
  m.screen.draw (m.register x) (m.register y) (m.memory.bytes m.index.toNat n)

/-- The screen after an instruction. -/
def screenAfter (m : Machine) : Instruction → Screen
  | .clear => .blank
  | .draw x y n => (m.drawing x y n).screen
  | _ => m.screen

/-- The stack after an instruction. -/
def stackAfter (m : Machine) : Instruction → List UInt16
  | .call _ => Word.wrap (m.pc.toNat + 2) :: m.stack
  | .ret => m.stack.tail
  | _ => m.stack

/-- The index after an instruction. -/
def indexAfter (m : Machine) : Instruction → UInt16
  | .setIndex a => UInt16.ofNat a
  | .addIndex x => Word.wrap (m.index.toNat + (m.register x).toNat)
  | .glyph x => m.glyphAddress (m.register x)
  | .store x | .load x =>
    if m.flags.dialect.keepIndex then m.index else Word.wrap (m.index.toNat + x + 1)
  | _ => m.index

/-- The timers after an instruction. -/
def timersAfter (m : Machine) : Instruction → Timers
  | .setDelay x => m.timers.setDelay (m.register x)
  | .setSound x => (m.timers.setSound (m.register x)).2
  | _ => m.timers

/-- The status after an instruction. -/
def statusAfter (m : Machine) : Instruction → Status
  | .awaitKey x => .waiting x
  | _ => m.status

/-- What an instruction tells the outside. -/
def eventsAfter (m : Machine) : Instruction → List Event
  | .clear => [.cleared]
  | .draw x y n => (m.drawing x y n).toggles.map .pixel
  | .setSound x => (m.sounded (m.register x)).events
  | _ => []

theorem calculated_eq (m : Machine) (c : Calculation) (x y : Fin 16) :
    m.calculated c x y = { m with registers := (m.calculated c x y).registers } := by
  cases c <;> rfl

theorem indexAdvanced_eq (m : Machine) (b : UInt8) :
    m.indexAdvanced b =
      { m with
        index := Word.wrap (m.index.toNat + b.toNat)
        registers := (m.indexAdvanced b).registers } := by
  unfold indexAdvanced
  dsimp only
  split <;> rfl

theorem pastBlock_eq (m : Machine) (x : Fin 16) :
    m.pastBlock x =
      { m with
        index :=
          if m.flags.dialect.keepIndex then m.index else Word.wrap (m.index.toNat + x + 1) } := by
  unfold pastBlock
  split <;> rfl

/-- A call comes out well only if there is room on the stack, and puts the address behind it
there. -/
theorem callTo_eq_ok_iff {m : Machine} {a : Fin 4096} {e : Effect} :
    m.callTo a = .ok e ↔
      m.stack.length < stackDepth ∧
        e = ⟨{ m with stack := Word.wrap (m.pc.toNat + 2) :: m.stack },
          .jump (UInt16.ofNat a), []⟩ := by
  unfold callTo
  split
  · rename_i hs
    simp [hs, eq_comm]
  · rename_i hs
    simp [hs]

/-- A return comes out well only if there is an address on the stack, and goes there. -/
theorem returned_eq_ok_iff {m : Machine} {e : Effect} :
    m.returned = .ok e ↔
      ∃ a rest, m.stack = a :: rest ∧ e = ⟨{ m with stack := rest }, .jump a, []⟩ := by
  unfold returned
  split
  · rename_i hs
    simp [hs]
  · rename_i a rest hs
    constructor
    · intro h
      cases h
      exact ⟨a, rest, hs, rfl⟩
    · rintro ⟨a', rest', hs', rfl⟩
      obtain ⟨rfl, rfl⟩ := List.cons.inj (hs.symm.trans hs')
      rfl

/-- **What an instruction leaves, part by part.** The registers are the part of which no more is
said here. -/
theorem machine_of_execute {m : Machine} {keypad : Keypad} {dice : UInt8} {i : Instruction}
    {e : Effect} (h : m.execute keypad dice i = .ok e) :
    e.machine =
      { m with
        memory := m.memoryAfter i
        screen := m.screenAfter i
        stack := m.stackAfter i
        index := m.indexAfter i
        registers := e.machine.registers
        timers := m.timersAfter i
        status := m.statusAfter i } := by
  cases i with
  | ret =>
    obtain ⟨a, rest, hs, rfl⟩ := returned_eq_ok_iff.1 h
    have hrest : m.stackAfter .ret = rest := by
      show m.stack.tail = rest
      rw [hs, List.tail_cons]
    rw [hrest]
    rfl
  | call a =>
    obtain ⟨-, rfl⟩ := callTo_eq_ok_iff.1 h
    rfl
  | calculate c x y =>
    cases h
    exact m.calculated_eq c x y
  | addIndex x =>
    cases h
    exact m.indexAdvanced_eq _
  | store x =>
    cases h
    rw [pastBlock_eq]
    rfl
  | load x =>
    cases h
    rw [pastBlock_eq]
    -- unfolded first, since the comparison of machines would evaluate the block
    unfold withBlock
    rfl
  | _ =>
    cases h
    rfl

theorem events_of_execute {m : Machine} {keypad : Keypad} {dice : UInt8} {i : Instruction}
    {e : Effect} (h : m.execute keypad dice i = .ok e) : e.events = m.eventsAfter i := by
  cases i with
  | ret =>
    obtain ⟨a, rest, -, rfl⟩ := returned_eq_ok_iff.1 h
    rfl
  | call a =>
    obtain ⟨-, rfl⟩ := callTo_eq_ok_iff.1 h
    rfl
  | _ =>
    cases h
    rfl

/-! ## Steps -/

/-- The machine neither stands still nor waits for a key. -/
def IsActive (m : Machine) : Prop :=
  m.flags.pause = false ∧ m.status = .running

theorem isActive_iff (m : Machine) :
    m.IsActive ↔ ¬(m.flags.pause || m.isWaiting) = true := by
  simp [IsActive, isWaiting]

/-- The machine runs, and the word of an instruction is the next one. -/
structure AboutTo (m : Machine) (i : Instruction) : Prop where
  active : m.IsActive
  fetch : m.fetch = i.word

theorem AboutTo.word {m : Machine} {i : Instruction} (h : m.AboutTo i) :
    Instruction.ofWord? m.fetch = some i :=
  Instruction.ofWord?_eq_some_iff.2 h.fetch

/-- The line of the trace that belongs to the next instruction, if there is a trace. -/
def nextLine (m : Machine) : List TraceLine :=
  if m.flags.debug then [⟨m.cycle, m.pc, m.fetch⟩] else []

/-- The machine after an instruction, with its effect and the change of the program counter. -/
def advanced (m : Machine) (e : Effect) : Machine :=
  { e.machine with pc := e.flow.target m.pc, cycle := m.cycle + 1 }

/-- A step of an active machine is the execution of the word at the program counter. -/
theorem step_of_isActive {m : Machine} (h : m.IsActive) (keypad : Keypad) (dice : UInt8) :
    m.step keypad dice =
      match Instruction.ofWord? m.fetch with
      | none =>
        { answer := .error (.unknownInstruction m.fetch m.pc), machine := m, trace := m.nextLine }
      | some i =>
        match m.execute keypad dice i with
        | .error fault => { answer := .error fault, machine := m, trace := m.nextLine }
        | .ok e =>
          { answer := .ok ()
            machine := m.advanced e
            events := e.events
            trace := m.nextLine } := by
  rw [step, if_neg (m.isActive_iff.1 h)]
  rfl

/-- The ways in which a step ends. -/
inductive StepCase (m : Machine) (keypad : Keypad) (dice : UInt8) : Report Unit → Prop
  | idle (h : ¬m.IsActive) : StepCase m keypad dice (.done m)
  | unknown (h : m.IsActive) (hw : Instruction.ofWord? m.fetch = none) :
      StepCase m keypad dice
        { answer := .error (.unknownInstruction m.fetch m.pc), machine := m, trace := m.nextLine }
  | failed {i : Instruction} {fault : Fault} (h : m.IsActive)
      (hw : Instruction.ofWord? m.fetch = some i) (hi : m.execute keypad dice i = .error fault) :
      StepCase m keypad dice { answer := .error fault, machine := m, trace := m.nextLine }
  | executed {i : Instruction} {e : Effect} (h : m.IsActive)
      (hw : Instruction.ofWord? m.fetch = some i) (hi : m.execute keypad dice i = .ok e) :
      StepCase m keypad dice
        { answer := .ok (), machine := m.advanced e, events := e.events, trace := m.nextLine }

/-- **A step ends in one of four ways.** -/
theorem stepCase (m : Machine) (keypad : Keypad) (dice : UInt8) :
    StepCase m keypad dice (m.step keypad dice) := by
  by_cases h : m.IsActive
  · rw [step_of_isActive h]
    split
    · rename_i hw
      exact .unknown h hw
    · rename_i i hw
      split
      · rename_i fault hi
        exact .failed h hw hi
      · rename_i e hi
        exact .executed h hw hi
  · rw [step_of_idle (Classical.not_not.1 (mt m.isActive_iff.2 h))]
    exact .idle h

theorem step_of_execute {m : Machine} {keypad : Keypad} {dice : UInt8} {i : Instruction}
    {e : Effect} (h : m.IsActive) (hw : Instruction.ofWord? m.fetch = some i)
    (hi : m.execute keypad dice i = .ok e) :
    m.step keypad dice =
      { answer := .ok (), machine := m.advanced e, events := e.events, trace := m.nextLine } := by
  rw [step_of_isActive h]
  simp only [hw, hi]

/-- An active machine with a trace writes the line of its instruction, whatever comes of that. -/
theorem trace_step {m : Machine} (h : m.IsActive) (keypad : Keypad) (dice : UInt8) :
    (m.step keypad dice).trace = m.nextLine := by
  rw [step_of_isActive h]
  split
  · rfl
  · split <;> rfl

/-- A step changes nothing of what the host has settled: flags, font and program. -/
theorem machine_step (m : Machine) (keypad : Keypad) (dice : UInt8) :
    (m.step keypad dice).machine =
      { (m.step keypad dice).machine with flags := m.flags, font := m.font, rom := m.rom } := by
  have h := m.stepCase keypad dice
  generalize m.step keypad dice = r at h
  cases h with
  | idle | unknown | failed => rfl
  | executed _ _ hi =>
    rw [advanced, machine_of_execute hi]

/-! ## Single operations -/

/-- What can happen to a machine in a single operation, and what it tells the outside by it. -/
inductive Change (m : Machine) : Machine → List Event → Prop
  /-- The machine stands still, or waits, or refuses. -/
  | none : Change m m []
  /-- An instruction is executed. -/
  | executed {keypad : Keypad} {dice : UInt8} {i : Instruction} {e : Effect} (h : m.IsActive)
      (hw : Instruction.ofWord? m.fetch = some i) (hi : m.execute keypad dice i = .ok e) :
      Change m (m.advanced e) e.events
  /-- The timers count down. -/
  | ticked (h : m.flags.pause = false) :
      Change m { m with timers := m.timers.tick.2 } (if m.timers.tick.1 then [.toneStop] else [])
  /-- The program begins anew, or a program that is small enough begins. -/
  | reset {rom : List UInt8} (h : rom = m.rom ∨ rom.length ≤ Region.program.size) :
      Change m { m with rom := rom }.reset.machine { m with rom := rom }.reset.events
  /-- A key is given to the machine that waits for it. -/
  | keyDelivered {target : Fin 16} {key : UInt8} (h : m.status = .waiting target)
      (hk : key ≤ 0xf) :
      Change m
        { m.withRegister target key with
          status := .running, pc := Word.wrap (m.pc.toNat + 2) } []
  | registerSet (x : Fin 16) (b : UInt8) : Change m (m.withRegister x b) []
  | memoryEdited (memory : Memory) : Change m { m with memory := memory } []
  | flagsSet (flags : Flags) : Change m { m with flags := flags } []

theorem tick_of_pause {m : Machine} (h : m.flags.pause = true) : m.tick = .done m :=
  if_pos h

theorem tick_of_not_pause {m : Machine} (h : m.flags.pause = false) :
    m.tick =
      { answer := .ok ()
        machine := { m with timers := m.timers.tick.2 }
        events := if m.timers.tick.1 then [.toneStop] else [] } := by
  rw [tick, if_neg (Bool.eq_false_iff.1 h)]

theorem answer_tick (m : Machine) : m.tick.answer = .ok () := by
  unfold tick
  split <;> rfl

/-- A tick changes nothing but the timers. -/
theorem machine_tick (m : Machine) :
    m.tick.machine = { m with timers := m.tick.machine.timers } := by
  unfold tick
  split <;> rfl

/-- A key that does not exist is refused. -/
theorem deliverKey_of_lt (m : Machine) {key : UInt8} (h : 0xf < key) :
    m.deliverKey key = .refused (.invalidKey key.toNat) m :=
  if_pos h

theorem deliverKey_of_running {m : Machine} (h : m.status = .running) {key : UInt8}
    (hk : key ≤ 0xf) : m.deliverKey key = { answer := .ok false, machine := m } := by
  rw [deliverKey, if_neg (UInt8.not_lt.2 hk), h]

/-- A machine that waits takes the key, and runs on behind the instruction. -/
theorem deliverKey_of_waiting {m : Machine} {x : Fin 16} (h : m.status = .waiting x) {key : UInt8}
    (hk : key ≤ 0xf) :
    m.deliverKey key =
      { answer := .ok true
        machine :=
          { m.withRegister x key with
            status := .running, pc := Word.wrap (m.pc.toNat + 2) } } := by
  rw [deliverKey, if_neg (UInt8.not_lt.2 hk), h]

/-- The delivery of a key changes nothing but registers, status and program counter. -/
theorem machine_deliverKey (m : Machine) (key : UInt8) :
    (m.deliverKey key).machine =
      { m with
        registers := (m.deliverKey key).machine.registers
        status := (m.deliverKey key).machine.status
        pc := (m.deliverKey key).machine.pc } := by
  unfold deliverKey
  split
  · rfl
  · split <;> rfl

theorem machine_setRegister (m : Machine) (register : Nat) (value : UInt8) :
    (m.setRegister register value).machine =
      { m with registers := (m.setRegister register value).machine.registers } := by
  unfold setRegister
  split <;> rfl

theorem machine_editMemory (m : Machine) (edit : Memory.Edit) :
    (m.editMemory edit).machine =
      { m with memory := (m.editMemory edit).machine.memory } := by
  unfold editMemory
  split <;> rfl

theorem change_step (m : Machine) (keypad : Keypad) (dice : UInt8) :
    m.Change (m.step keypad dice).machine (m.step keypad dice).events := by
  have h := m.stepCase keypad dice
  generalize m.step keypad dice = r at h
  cases h with
  | idle | unknown | failed => exact .none
  | executed h hw hi => exact .executed h hw hi

theorem change_tick (m : Machine) : m.Change m.tick.machine m.tick.events := by
  unfold tick
  split
  · exact .none
  · rename_i h
    exact .ticked (by simpa using h)

theorem change_reset (m : Machine) : m.Change m.reset.machine m.reset.events :=
  .reset (.inl rfl)

theorem change_load (m : Machine) (rom : List UInt8) :
    m.Change (m.load rom).machine (m.load rom).events := by
  unfold load
  split
  · exact .none
  · rename_i h
    exact .reset (.inr (Nat.not_lt.1 h))

theorem change_deliverKey (m : Machine) (key : UInt8) :
    m.Change (m.deliverKey key).machine (m.deliverKey key).events := by
  unfold deliverKey
  split
  · exact .none
  · rename_i hk
    split
    · exact .none
    · rename_i h
      exact .keyDelivered h (UInt8.not_lt.1 hk)

theorem change_setRegister (m : Machine) (register : Nat) (value : UInt8) :
    m.Change (m.setRegister register value).machine (m.setRegister register value).events := by
  unfold setRegister
  split
  · exact .registerSet _ _
  · exact .none

theorem change_editMemory (m : Machine) (edit : Memory.Edit) :
    m.Change (m.editMemory edit).machine (m.editMemory edit).events := by
  unfold editMemory
  split
  · exact .memoryEdited _
  · exact .none

/-- **A single operation does one of these things.** -/
theorem change_act (m : Machine) {a : Action} (h : a.operation.IsSingle) :
    m.Change (m.act a).machine (m.act a).events := by
  obtain ⟨s, o⟩ := a
  cases o with
  | load rom => exact m.change_load rom
  | reset => exact m.change_reset
  | step => exact m.change_step _ _
  | multistep n => exact h.elim
  | tick => exact m.change_tick
  | deliverKey key => exact m.change_deliverKey key
  | setRegister register value => exact m.change_setRegister register value
  | editMemory edit => exact m.change_editMemory edit
  | setFlags flags => exact .flagsSet flags

/-- Nobody but the host changes the flags. -/
theorem flags_act (m : Machine) {a : Action} (hs : a.operation.IsSingle)
    (h : ∀ flags, a.operation ≠ .setFlags flags) : (m.act a).machine.flags = m.flags := by
  obtain ⟨s, o⟩ := a
  cases o with
  | load rom =>
    show (m.load rom).machine.flags = m.flags
    unfold load
    split <;> rfl
  | step =>
    show (m.step s.keypad (s.dice 0)).machine.flags = m.flags
    rw [machine_step]
  | multistep n => exact hs.elim
  | tick =>
    show m.tick.machine.flags = m.flags
    rw [machine_tick]
  | deliverKey key =>
    show (m.deliverKey key).machine.flags = m.flags
    rw [machine_deliverKey]
  | setRegister register value =>
    show (m.setRegister register value).machine.flags = m.flags
    rw [machine_setRegister]
  | editMemory edit =>
    show (m.editMemory edit).machine.flags = m.flags
    rw [machine_editMemory]
  | reset => rfl
  | setFlags flags => exact absurd rfl (h flags)

/-! ## Runs -/

/-- A run in which the host does not change the flags leaves them as they are. -/
theorem flags_run (m : Machine) {actions : List Action}
    (h : ∀ a ∈ actions, ∀ flags, a.operation ≠ .setFlags flags) :
    (m.run actions).machine.flags = m.flags := by
  have hmoments : ∀ t ∈ m.moments actions, ∀ flags, t.action.operation ≠ .setFlags flags :=
    forall_mem_moments (P := fun o => ∀ flags, o ≠ .setFlags flags) (fun _ => Operation.noConfusion)
      (fun _ => Operation.noConfusion) h
  revert hmoments
  refine moments_induction
    (P := fun m moments r => (∀ t ∈ moments, ∀ flags, t.action.operation ≠ .setFlags flags) →
      r.machine.flags = m.flags)
    (fun m _ => rfl) (fun {t _ r} hs ih hts => ?_) m actions
  have hfirst : t.report.machine.flags = t.machine.flags :=
    t.machine.flags_act hs (hts t List.mem_cons_self)
  exact (ih fun u hu => hts u (List.mem_cons_of_mem _ hu)).trans hfirst

/-- **What begins true and what every change keeps is true after every run.** The statement may
speak of all that the machine has told so far. -/
theorem run_induction {P : Machine → List Event → Prop} {m : Machine} (start : P m [])
    (next : ∀ {m m' : Machine} {told new : List Event}, P m told → m.Change m' new →
      P m' (told ++ new))
    (actions : List Action) : P (m.run actions).machine (m.run actions).events := by
  -- the induction needs the statement behind any events already told
  refine moments_induction (P := fun m _ r => ∀ told, P m told → P r.machine (told ++ r.events))
    (fun m told h => ?_) (fun {t _ r} hs ih told h => ?_) m actions [] start
  · rwa [List.append_nil]
  · show P r.machine (told ++ (t.report.events ++ r.events))
    rw [← List.append_assoc]
    exact ih _ (next h (t.machine.change_act hs))

end Machine

/-! ## Executed instructions -/

/-- A step executes the instruction `i` at a moment, and it comes out well. -/
structure Moment.Executes (t : Moment) (i : Instruction) : Prop where
  step : t.action.operation = .step
  active : t.machine.IsActive
  word : Instruction.ofWord? t.machine.fetch = some i
  answer : t.report.answer = .ok none

/-- The effect of an instruction that is executed is what the moment leaves. -/
theorem Moment.Executes.exists_effect {t : Moment} {i : Instruction} (h : t.Executes i) :
    ∃ e, t.machine.execute t.action.surroundings.keypad (t.action.surroundings.dice 0) i = .ok e ∧
      t.report.machine = t.machine.advanced e := by
  obtain ⟨m, s, o⟩ := t
  obtain ⟨hstep, hactive, hword, hanswer⟩ := h
  obtain rfl : o = .step := hstep
  rw [report_step] at hanswer ⊢
  have hc := m.stepCase s.keypad (s.dice 0)
  generalize m.step s.keypad (s.dice 0) = r at hc hanswer
  cases hc with
  | idle hidle => exact absurd hactive hidle
  | unknown | failed => cases hanswer
  | @executed i' e _ hw hi =>
    obtain rfl : i' = i := Option.some.inj (hw.symm.trans hword)
    exact ⟨e, hi, rfl⟩

/-- **What the execution of an instruction leaves, part by part**, apart from the registers and the
program counter. -/
theorem Moment.Executes.machine_eq {t : Moment} {i : Instruction} (h : t.Executes i) :
    t.report.machine =
      { t.machine with
        memory := t.machine.memoryAfter i
        screen := t.machine.screenAfter i
        stack := t.machine.stackAfter i
        pc := t.report.machine.pc
        index := t.machine.indexAfter i
        registers := t.report.machine.registers
        timers := t.machine.timersAfter i
        status := t.machine.statusAfter i
        cycle := t.machine.cycle + 1 } := by
  obtain ⟨e, hi, hm⟩ := h.exists_effect
  rw [hm, Machine.advanced, Machine.machine_of_execute hi]

/-- The effect of the next instruction is what a step leaves. -/
theorem Moment.executes_of_execute {m : Machine} {s : Surroundings} {i : Instruction} {e : Effect}
    (h : m.IsActive) (hw : Instruction.ofWord? m.fetch = some i)
    (hi : m.execute s.keypad (s.dice 0) i = .ok e) :
    Moment.Executes ⟨m, s, .step⟩ i ∧ (Moment.report ⟨m, s, .step⟩).machine = m.advanced e := by
  have hreport : Moment.report ⟨m, s, .step⟩ =
      { answer := .ok none, machine := m.advanced e, events := e.events, trace := m.nextLine } := by
    rw [report_step, Machine.step_of_execute h hw hi]
    rfl
  exact ⟨⟨rfl, h, hw, by rw [hreport]⟩, by rw [hreport]⟩

theorem Moment.Executes.events_eq {t : Moment} {i : Instruction} (h : t.Executes i) :
    t.report.events = t.machine.eventsAfter i := by
  obtain ⟨e, hi, -⟩ := h.exists_effect
  obtain ⟨m, s, o⟩ := t
  obtain rfl : o = .step := h.step
  rw [report_step, Machine.step_of_execute h.active h.word hi]
  exact Machine.events_of_execute hi

/-- Whether a step executes an instruction that comes out well. -/
def Moment.executes (t : Moment) : Bool :=
  decide (t.action.operation = .step) && !(t.machine.flags.pause || t.machine.isWaiting) &&
    t.report.answer.isOk

theorem Moment.executes_iff (t : Moment) : t.executes = true ↔ ∃ i, t.Executes i := by
  obtain ⟨m, s, o⟩ := t
  have hactive : (!(m.flags.pause || m.isWaiting)) = true ↔ m.IsActive := by
    rw [m.isActive_iff, Bool.not_eq_true', Bool.not_eq_true]
  rw [executes, Bool.and_eq_true, Bool.and_eq_true, decide_eq_true_eq, hactive]
  constructor
  · rintro ⟨⟨rfl, ha⟩, hok⟩
    rw [report_step] at hok
    have hc := m.stepCase s.keypad (s.dice 0)
    generalize m.step s.keypad (s.dice 0) = r at hc hok
    cases hc with
    | idle hidle => exact absurd ha hidle
    | unknown | failed => cases hok
    | executed h hw hi => exact ⟨_, (executes_of_execute h hw hi).1⟩
  · rintro ⟨i, h⟩
    refine ⟨⟨h.step, h.active⟩, ?_⟩
    rw [h.answer]
    rfl

/-- A step executes an instruction, or it leaves the machine as it is without a word; and if it
comes out well then, the machine was not active. -/
theorem Moment.executes_or_unchanged (m : Machine) (s : Surroundings) :
    let t : Moment := ⟨m, s, .step⟩
    (∃ i, t.Executes i) ∨
      t.report.machine = m ∧ t.report.events = [] ∧ (t.report.answer = .ok none → ¬m.IsActive) := by
  intro t
  have hreport : t.report = _ := report_step m s
  have hc := m.stepCase s.keypad (s.dice 0)
  generalize m.step s.keypad (s.dice 0) = r at hc hreport
  cases hc with
  | idle h =>
    rw [hreport]
    exact .inr ⟨rfl, rfl, fun _ => h⟩
  | unknown | failed =>
    rw [hreport]
    exact .inr ⟨rfl, rfl, nofun⟩
  | executed h hw hi => exact .inl ⟨_, (executes_of_execute h hw hi).1⟩

end Chip8
