import Chip8.Proofs.OpcodeMap
import Chip8.Proofs.Regular

/-!
# Fatal faults

A step ends in a fault exactly if the next instruction is bound to: the word at the program counter
is no instruction, or it is a call with a full stack, or a return with an empty one
(`Machine.Fatal`). Nothing changes by such a step, so nothing but the program or its bytes in memory
can ever get the machine past it.

* `step_eq_error_iff` says which steps end in which fault, `step_of_error` what they leave.
* `Stuck.machine_act` says what other operations leave of a machine that cannot get past its
  instruction, `Stuck.act` that it stays so, and `Stuck.answer_of_mem_moments` what follows for
  every later step.
* `multistep_of_firstFault` is about several steps of which one ends in a fault.
* `fatal_faults` puts these together.
-/

namespace Chip8

/-- Whether an operation leaves the program and memory to the machine itself. -/
def Operation.KeepsProgram : Operation → Prop
  | .load _ | .reset | .editMemory _ => False
  | _ => True

namespace Machine

/-! ## The next instruction -/

/-- The next instruction is bound to end in a fault. -/
inductive Fatal (m : Machine) : Fault → Prop
  /-- The word at the program counter is no instruction. -/
  | unknown (h : ¬Word.IsOpcode m.fetch) : Fatal m (.unknownInstruction m.fetch m.pc)
  /-- It is a call, and the stack is full. -/
  | overflow (h : (Word.nibble m.fetch 3).val = 0x2) (hs : m.stack.length = stackDepth) :
      Fatal m (.stackOverflow m.pc)
  /-- It is a return, and the stack is empty. -/
  | underflow (h : m.fetch = 0x00ee) (hs : m.stack = []) : Fatal m (.stackUnderflow m.pc)

theorem execute_eq_error_iff {m : Machine} (h : m.Regular) {keypad : Keypad} {dice : UInt8}
    {i : Instruction} {fault : Fault} :
    m.execute keypad dice i = .error fault ↔
      (∃ a, i = .call a) ∧ m.stack.length = stackDepth ∧ fault = .stackOverflow m.pc ∨
        i = .ret ∧ m.stack = [] ∧ fault = .stackUnderflow m.pc := by
  have hle := h.length_stack_le
  cases i with
  | call a =>
    have hlt : ¬m.stack.length < stackDepth ↔ m.stack.length = stackDepth := by omega
    simp only [execute, callTo]
    split
    · rename_i hs
      simp [Nat.ne_of_lt hs]
    · rename_i hs
      simp [hlt.1 hs, eq_comm]
  | ret =>
    simp only [execute, returned]
    split
    · rename_i hs
      simp [hs, eq_comm]
    · rename_i a rest hs
      simp [hs]
  | _ => simp [execute]

/-- **Which steps end in which fault.** -/
theorem step_eq_error_iff {m : Machine} (h : m.Regular) (keypad : Keypad) (dice : UInt8)
    (fault : Fault) :
    (m.step keypad dice).answer = .error fault ↔ m.IsActive ∧ m.Fatal fault := by
  constructor
  · intro hf
    have hc := m.stepCase keypad dice
    generalize m.step keypad dice = r at hc hf
    cases hc with
    | idle | executed => cases hf
    | unknown ha hw =>
      cases hf
      refine ⟨ha, .unknown fun ho => ?_⟩
      rw [← Instruction.ofWord?_isSome_iff, hw] at ho
      cases ho
    | failed ha hw hi =>
      cases hf
      refine ⟨ha, ?_⟩
      rcases (execute_eq_error_iff h).1 hi with ⟨⟨a, rfl⟩, hs, rfl⟩ | ⟨rfl, hs, rfl⟩
      · exact .overflow ((Instruction.exists_call_iff _).1 ⟨a, hw⟩) hs
      · exact .underflow ((Instruction.ofWord?_eq_ret_iff _).1 hw) hs
  · rintro ⟨ha, hf⟩
    rw [step_of_isActive ha]
    cases hf with
    | unknown hw =>
      have hnone : Instruction.ofWord? m.fetch = none := by
        rw [← Option.not_isSome_iff_eq_none, Instruction.ofWord?_isSome_iff]
        exact hw
      simp only [hnone]
    | overflow hw hs =>
      obtain ⟨a, hi⟩ := (Instruction.exists_call_iff _).2 hw
      have herror : m.execute keypad dice (.call a) = .error (.stackOverflow m.pc) :=
        (execute_eq_error_iff h).2 (.inl ⟨⟨a, rfl⟩, hs, rfl⟩)
      simp only [hi, herror]
    | underflow hw hs =>
      have hi := (Instruction.ofWord?_eq_ret_iff _).2 hw
      have herror : m.execute keypad dice .ret = .error (.stackUnderflow m.pc) :=
        (execute_eq_error_iff h).2 (.inr ⟨rfl, hs, rfl⟩)
      simp only [hi, herror]

theorem step_of_error {m : Machine} {keypad : Keypad} {dice : UInt8} {fault : Fault}
    (h : (m.step keypad dice).answer = .error fault) :
    (m.step keypad dice).machine = m ∧ (m.step keypad dice).events = [] := by
  have hc := m.stepCase keypad dice
  generalize m.step keypad dice = r at hc h
  cases hc with
  | idle | unknown | failed => exact ⟨rfl, rfl⟩
  | executed => cases h

/-! ## What the other operations keep -/

theorem Fatal.congr {m m' : Machine} {fault : Fault} (h : m.Fatal fault)
    (hmemory : m'.memory = m.memory) (hpc : m'.pc = m.pc) (hstack : m'.stack = m.stack) :
    m'.Fatal fault := by
  have hfetch : m'.fetch = m.fetch := by rw [fetch, fetch, hmemory, hpc]
  cases h with
  | unknown hw =>
    rw [← hfetch, ← hpc]
    exact .unknown (hfetch ▸ hw)
  | overflow hw hs =>
    rw [← hpc]
    exact .overflow (hfetch ▸ hw) (hstack ▸ hs)
  | underflow hw hs =>
    rw [← hpc]
    exact .underflow (hfetch.trans hw) (hstack.trans hs)

/-- The machine runs, and its next instruction is bound to end in a fault. -/
structure Stuck (m : Machine) (fault : Fault) : Prop where
  regular : m.Regular
  running : m.status = .running
  fatal : m.Fatal fault

theorem Stuck.congr {m m' : Machine} {fault : Fault} (h : m.Stuck fault) (hr : m'.Regular)
    (hs : m'.status = m.status) (hmemory : m'.memory = m.memory) (hpc : m'.pc = m.pc)
    (hstack : m'.stack = m.stack) : m'.Stuck fault :=
  ⟨hr, hs.trans h.running, h.fatal.congr hmemory hpc hstack⟩

theorem Stuck.answer {m : Machine} {fault : Fault} (h : m.Stuck fault)
    (hp : m.flags.pause = false) (keypad : Keypad) (dice : UInt8) :
    (m.step keypad dice).answer = .error fault :=
  (step_eq_error_iff h.regular keypad dice fault).2 ⟨⟨hp, h.running⟩, h.fatal⟩

/-- A stuck machine changes nothing but registers and timers, if the host does not set its flags. -/
theorem Stuck.machine_act {m : Machine} {fault : Fault} (h : m.Stuck fault) {a : Action}
    (hs : a.operation.IsSingle) (hkeeps : a.operation.KeepsProgram)
    (hflags : ∀ flags, a.operation ≠ .setFlags flags) :
    (m.act a).machine =
      { m with
        registers := (m.act a).machine.registers
        timers := (m.act a).machine.timers } := by
  obtain ⟨s, o⟩ := a
  cases o with
  | load rom | reset | editMemory edit => exact hkeeps.elim
  | multistep n => exact hs.elim
  | setFlags flags => exact absurd rfl (hflags flags)
  | step =>
    have hstep : (m.step s.keypad (s.dice 0)).machine = m := by
      by_cases hactive : m.IsActive
      · exact (step_of_error (h.answer hactive.1 _ _)).1
      · rw [step_of_idle (Classical.not_not.1 (mt m.isActive_iff.2 hactive))]
        rfl
    show (m.step s.keypad (s.dice 0)).machine =
      { m with
        registers := (m.step s.keypad (s.dice 0)).machine.registers
        timers := (m.step s.keypad (s.dice 0)).machine.timers }
    rw [hstep]
  | tick =>
    show m.tick.machine =
      { m with registers := m.tick.machine.registers, timers := m.tick.machine.timers }
    rw [m.machine_tick]
  | deliverKey key =>
    have hkey : (m.deliverKey key).machine = m := by
      rcases UInt8.lt_or_le 0xf key with hlt | hle
      · rw [m.deliverKey_of_lt hlt]
        rfl
      · rw [deliverKey_of_running h.running hle]
    show (m.deliverKey key).machine =
      { m with
        registers := (m.deliverKey key).machine.registers
        timers := (m.deliverKey key).machine.timers }
    rw [hkey]
  | setRegister register value =>
    show (m.setRegister register value).machine =
      { m with
        registers := (m.setRegister register value).machine.registers
        timers := (m.setRegister register value).machine.timers }
    rw [m.machine_setRegister]

/-- **A stuck machine stays stuck**, whatever is done with it apart from its program and memory. -/
theorem Stuck.act {m : Machine} {fault : Fault} (h : m.Stuck fault) {a : Action}
    (hsingle : a.operation.IsSingle) (hkeeps : a.operation.KeepsProgram) :
    (m.act a).machine.Stuck fault := by
  have hr : (m.act a).machine.Regular := h.regular.of_change (m.change_act hsingle)
  by_cases hflags : ∃ flags, a.operation = .setFlags flags
  · obtain ⟨s, o⟩ := a
    obtain ⟨flags, rfl⟩ := hflags
    exact h.congr hr rfl rfl rfl rfl
  · rw [h.machine_act hsingle hkeeps (not_exists.1 hflags)] at hr ⊢
    exact h.congr hr rfl rfl rfl rfl

/-- The steps among the moments of a run, those inside of several steps included, end in the fault
again. -/
theorem Stuck.answer_of_mem_moments {m : Machine} {fault : Fault} (h : m.Stuck fault)
    {actions : List Action} (hkeeps : ∀ a ∈ actions, a.operation.KeepsProgram) {t : Moment}
    (ht : t ∈ m.moments actions) (hstep : t.action.operation = .step)
    (hp : t.machine.flags.pause = false) : t.report.answer = .error fault := by
  have hsingles : ∀ a ∈ m.singles actions, a.operation.KeepsProgram :=
    forall_mem_singles trivial trivial hkeeps
  have hstuck := (forall_mem_walk (P := fun m => m.Stuck fault) h
    (fun m a ha hm => hm.act (isSingle_of_mem_singles ha) (hsingles a ha)) t ht).1
  obtain ⟨m', s, o⟩ := t
  obtain rfl : o = .step := hstep
  show ((m'.step s.keypad (s.dice 0)).map fun _ => none).answer = .error fault
  rw [Report.map, hstuck.answer hp]
  rfl

/-! ## Several steps -/

/-- The first `k` steps come out well, and the one after them ends in a fault. -/
def FirstFault (m : Machine) (s : Surroundings) (k : Nat) (fault : Fault) : Prop :=
  (∀ j < k, ((m.run (s.steps j)).machine.step s.keypad (s.dice j)).answer = .ok ()) ∧
    ((m.run (s.steps k)).machine.step s.keypad (s.dice k)).answer = .error fault

theorem run_steps_succ (m : Machine) (s : Surroundings) (k : Nat) :
    m.run (s.steps (k + 1)) =
      (m.step s.keypad (s.dice 0)).history.append
        ((m.step s.keypad (s.dice 0)).machine.run ((s.drop 1).steps k)) := by
  rw [Surroundings.steps_succ, run_cons]
  rfl

theorem firstFault_zero_iff {m : Machine} {s : Surroundings} {fault : Fault} :
    m.FirstFault s 0 fault ↔ (m.step s.keypad (s.dice 0)).answer = .error fault :=
  ⟨fun h => h.2, fun h => ⟨fun _ hj => absurd hj (Nat.not_lt_zero _), h⟩⟩

theorem firstFault_succ_iff {m : Machine} {s : Surroundings} {k : Nat} {fault : Fault} :
    m.FirstFault s (k + 1) fault ↔
      (m.step s.keypad (s.dice 0)).answer = .ok () ∧
        (m.step s.keypad (s.dice 0)).machine.FirstFault (s.drop 1) k fault := by
  have hstep : ∀ j, (m.run (s.steps (j + 1))).machine =
      ((m.step s.keypad (s.dice 0)).machine.run ((s.drop 1).steps j)).machine := by
    intro j
    rw [run_steps_succ]
    rfl
  have hdice : ∀ j, (s.drop 1).dice j = s.dice (j + 1) := by
    intro j
    rw [Nat.add_comm]
    rfl
  unfold FirstFault
  simp only [hstep, hdice]
  constructor
  · rintro ⟨hok, hf⟩
    refine ⟨hok 0 (Nat.succ_pos _), fun j hj => ?_, hf⟩
    have hj' := hok (j + 1) (Nat.succ_lt_succ hj)
    rw [hstep] at hj'
    exact hj'
  · rintro ⟨hfirst, hok, hf⟩
    refine ⟨fun j hj => ?_, hf⟩
    cases j with
    | zero => exact hfirst
    | succ j =>
      rw [hstep]
      exact hok j (Nat.lt_of_succ_lt_succ hj)

/-- A fault among several steps is the answer to all of them, and it leaves what the steps before
it leave: the timers are not counted down. -/
theorem multistep_of_firstFault {m : Machine} {s : Surroundings} {n k : Nat} {fault : Fault}
    (hk : k < n) (h : m.FirstFault s k fault) :
    (m.multistep s n).answer = .error fault ∧
      (m.multistep s n).machine = (m.run (s.steps k)).machine ∧
      (m.multistep s n).events = (m.run (s.steps k)).events := by
  induction n generalizing m s k with
  | zero => exact absurd hk (Nat.not_lt_zero _)
  | succ n ih =>
    rw [multistep_succ]
    cases k with
    | zero =>
      have hf := firstFault_zero_iff.1 h
      simp only [hf]
      exact ⟨trivial, step_of_error hf⟩
    | succ k =>
      obtain ⟨hok, hrest⟩ := firstFault_succ_iff.1 h
      obtain ⟨hanswer, hmachine, hevents⟩ := ih (Nat.lt_of_succ_lt_succ hk) hrest
      simp only [hok]
      rw [run_steps_succ]
      refine ⟨hanswer, hmachine, ?_⟩
      rw [hevents]
      rfl

/-- Several steps end in a fault only if one of them does. -/
theorem exists_firstFault_of_multistep {m : Machine} {s : Surroundings} {n : Nat} {fault : Fault}
    (h : (m.multistep s n).answer = .error fault) : ∃ k < n, m.FirstFault s k fault := by
  induction n generalizing m s with
  | zero =>
    rw [multistep_zero, tick] at h
    split at h <;> cases h
  | succ n ih =>
    rw [multistep_succ] at h
    cases hr : (m.step s.keypad (s.dice 0)).answer with
    | error fault' =>
      simp only [hr] at h
      exact ⟨0, Nat.succ_pos _, firstFault_zero_iff.2 (hr.trans h)⟩
    | ok =>
      simp only [hr] at h
      obtain ⟨k, hk, hf⟩ := ih h
      exact ⟨k + 1, Nat.succ_lt_succ hk, firstFault_succ_iff.2 ⟨hr, hf⟩⟩

/-! ## The theorem -/

theorem toNat_fetch (m : Machine) :
    m.fetch.toNat = 256 * (m.memory.read m.pc.toNat).toNat
      + (m.memory.read ((m.pc.toNat + 1) % memorySize)).toNat := by
  show (Word.ofBytes _ _).toNat = _
  rw [Word.toNat_ofBytes]
  show _ = _ + (m.memory.read ((m.pc.toNat + 1) % 4096)).toNat
  rw [Memory.read_mod]

/-- **Fatal faults are exact, atomic and lasting.** On every machine that a run can bring about,
a step ends in a fault exactly if the machine runs, does not stand still, and its next instruction
is bound to end in that fault. Such a step changes nothing and tells nothing. Whatever is done
afterwards, apart from the program and memory, every step that is not held up by the pause ends in
the same fault. And several steps end in a fault exactly if one of them does; then they leave what
the steps before it leave. -/
theorem fatal_faults (flags : Flags) (actions : List Action) :
    let m := ((new flags).run actions).machine
    m.fetch.toNat = 256 * (m.memory.read m.pc.toNat).toNat
        + (m.memory.read ((m.pc.toNat + 1) % memorySize)).toNat ∧
      ∀ fault,
        (∀ keypad dice, (m.step keypad dice).answer = .error fault ↔
          m.flags.pause = false ∧ m.status = .running ∧ m.Fatal fault) ∧
        (∀ keypad dice, (m.step keypad dice).answer = .error fault →
          (m.step keypad dice).machine = m ∧ (m.step keypad dice).events = [] ∧
          ∀ later, (∀ a ∈ later, a.operation.KeepsProgram) →
            ∀ t ∈ m.moments later, t.action.operation = .step → t.machine.flags.pause = false →
              t.report.answer = .error fault) ∧
        (∀ s n, (m.multistep s n).answer = .error fault ↔ ∃ k < n, m.FirstFault s k fault) ∧
        ∀ s n, ∀ k < n, m.FirstFault s k fault →
          (m.multistep s n).machine = (m.run (s.steps k)).machine ∧
            (m.multistep s n).events = (m.run (s.steps k)).events := by
  intro m
  have hr : m.Regular := regular_run flags actions
  refine ⟨m.toNat_fetch, fun fault => ⟨fun keypad dice => ?_, fun keypad dice hf => ?_,
    fun s n => ⟨exists_firstFault_of_multistep, ?_⟩, fun s n k hk hf => ?_⟩⟩
  · rw [step_eq_error_iff hr, IsActive, and_assoc]
  · obtain ⟨ha, hfatal⟩ := (step_eq_error_iff hr keypad dice fault).1 hf
    have hstuck : m.Stuck fault := ⟨hr, ha.2, hfatal⟩
    exact ⟨(step_of_error hf).1, (step_of_error hf).2, fun later hl t ht hs hp =>
      hstuck.answer_of_mem_moments hl ht hs hp⟩
  · rintro ⟨k, hk, hf⟩
    exact (multistep_of_firstFault hk hf).1
  · exact (multistep_of_firstFault hk hf).2

end Machine

end Chip8
