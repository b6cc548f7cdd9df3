import Chip8.Proofs.Dependence
import Chip8.Proofs.Footprint
import Chip8.Proofs.Restart

/-!
# Memory that is not read

A machine can tell two memories apart only by the cells that it reads: the two bytes of the next
instruction, the bytes of a sprite, and those that go into registers. As long as it reads none of
some cells, it does the same whatever stands in them.

* `Machine.AgreeOutside` relates machines that differ at most in some cells of memory.
* `Moment.Reads` says which cells a step reads, whether it comes out well or not.
* `Machine.execute_withMemory` and `Machine.alike_step`: a step does the same with two memories that
  agree where it reads.
* `Machine.alike_act` says so of every operation, and `Machine.unread_memory` of every run.
-/

namespace Chip8

/-! ## Memories that agree outside of some cells -/

variable {D : Fin 4096 → Prop}

namespace Memory

/-- Two memories hold the same outside of the cells `D`. -/
def AgreeOutside (D : Fin 4096 → Prop) (memory memory' : Memory) : Prop :=
  ∀ c : Fin 4096, ¬D c → memory'.read c = memory.read c

theorem AgreeOutside.refl (D : Fin 4096 → Prop) (memory : Memory) : AgreeOutside D memory memory :=
  fun _ _ => rfl

theorem AgreeOutside.read_eq {memory memory' : Memory} (h : AgreeOutside D memory memory') {a : Nat}
    (ha : ∀ c : Fin 4096, c.val = a % 4096 → ¬D c) : memory'.read a = memory.read a := by
  have hlt : a % 4096 < 4096 := Nat.mod_lt _ (by decide)
  rw [← read_mod, ← memory.read_mod]
  exact h ⟨a % 4096, hlt⟩ (ha _ rfl)

theorem AgreeOutside.bytes_eq {memory memory' : Memory} (h : AgreeOutside D memory memory')
    {a n : Nat} (hn : ∀ c, InBlock a n c → ¬D c) : memory'.bytes a n = memory.bytes a n := by
  refine List.map_congr_left fun k hk => h.read_eq fun c hc => hn c ?_
  exact ⟨k, List.mem_range.1 hk, hc⟩

theorem AgreeOutside.word_eq {memory memory' : Memory} (h : AgreeOutside D memory memory') {a : Nat}
    (hn : ∀ c, InBlock a 2 c → ¬D c) : memory'.word a = memory.word a := by
  have hhigh : memory'.read a = memory.read a :=
    h.read_eq fun c hc => hn c ⟨0, by decide, hc⟩
  have hlow := h.read_eq fun c hc => hn c ⟨1, by decide, hc⟩
  rw [word, word, hhigh, hlow]

/-- Writing the same to both keeps them so; the written cell may be one of these. -/
theorem AgreeOutside.write {memory memory' : Memory} (h : AgreeOutside D memory memory') (a : Nat)
    (b : UInt8) : AgreeOutside D (memory.write a b) (memory'.write a b) := by
  intro c hc
  rw [read_write, read_write, h c hc]

theorem AgreeOutside.writeAll {memory memory' : Memory} (h : AgreeOutside D memory memory')
    (a : Nat) (data : List UInt8) :
    AgreeOutside D (memory.writeAll a data) (memory'.writeAll a data) := by
  induction data generalizing memory memory' a with
  | nil => exact h
  | cons b rest ih => exact ih (h.write a b) (a + 1)

/-- A change that the host makes is refused in both, or keeps them so. -/
theorem AgreeOutside.apply {memory memory' : Memory} (h : AgreeOutside D memory memory')
    (edit : Edit) :
    (∃ fault, edit.apply memory = .error fault ∧ edit.apply memory' = .error fault) ∨
      ∃ after after', edit.apply memory = .ok after ∧ edit.apply memory' = .ok after' ∧
        AgreeOutside D after after' := by
  cases edit with
  | write a b => exact .inr ⟨_, _, rfl, rfl, h.write a b⟩
  | load r data =>
    simp only [Edit.apply, load]
    split
    · exact .inl ⟨_, rfl, rfl⟩
    · exact .inr ⟨_, _, rfl, rfl, h.writeAll r.start data⟩
  | clear r => exact .inr ⟨_, _, rfl, rfl, h.writeAll r.start _⟩
  | fill r b => exact .inr ⟨_, _, rfl, rfl, h.writeAll r.start _⟩
  | reset => exact .inr ⟨_, _, rfl, rfl, .refl D fresh⟩

end Memory

/-! ## What a step reads -/

/-- The next step reads the cell `c`: it fetches it, or the instruction that it finds there reads
it. -/
def Machine.Reads (m : Machine) (c : Fin 4096) : Prop :=
  m.IsActive ∧
    (Memory.InBlock m.pc.toNat 2 c ∨
      ∃ i, Instruction.ofWord? m.fetch = some i ∧ Memory.InBlock m.index.toNat i.readCount c)

/-- A step reads the cell `c`, whether it comes out well or not. -/
def Moment.Reads (t : Moment) (c : Fin 4096) : Prop :=
  t.action.operation = .step ∧ t.machine.Reads c

namespace Machine

/-- The machine with another memory. -/
def withMemory (m : Machine) (memory : Memory) : Machine :=
  { m with memory := memory }

/-- The machines differ at most in the cells `D` of memory. -/
def AgreeOutside (D : Fin 4096 → Prop) (m m' : Machine) : Prop :=
  m' = m.withMemory m'.memory ∧ m.memory.AgreeOutside D m'.memory

theorem AgreeOutside.refl (D : Fin 4096 → Prop) (m : Machine) : AgreeOutside D m m :=
  ⟨rfl, .refl D m.memory⟩

theorem agreeOutside_withMemory (m : Machine) {memory : Memory}
    (h : m.memory.AgreeOutside D memory) : AgreeOutside D m (m.withMemory memory) :=
  ⟨rfl, h⟩

end Machine

/-- Two reports say the same, and leave machines that differ at most in the cells `D` of memory. -/
structure Report.Alike {α : Type} (D : Fin 4096 → Prop) (r r' : Report α) : Prop where
  answer : r'.answer = r.answer
  machine : r.machine.AgreeOutside D r'.machine
  events : r'.events = r.events
  trace : r'.trace = r.trace

theorem Report.Alike.map {α β : Type} {r r' : Report α} (h : r.Alike D r') (f : α → β) :
    (r.map f).Alike D (r'.map f) where
  answer := congrArg (Except.map f) h.answer
  machine := h.machine
  events := h.events
  trace := h.trace

/-! ## Steps -/

namespace Machine

/-- Another memory that agrees where an instruction reads makes a difference to memory only. -/
theorem execute_withMemory (m : Machine) (memory : Memory) (keypad : Keypad) (dice : UInt8)
    {i : Instruction}
    (h : memory.bytes m.index.toNat i.readCount = m.memory.bytes m.index.toNat i.readCount) :
    (m.withMemory memory).execute keypad dice i =
      (m.execute keypad dice i).map fun e =>
        { e with machine := e.machine.withMemory ((m.withMemory memory).memoryAfter i) } := by
  refine (m.execute_replaced memory m.timers keypad dice h fun _ => rfl).trans ?_
  have htimers : (m.withMemory memory).timersAfter i = m.timersAfter i := by cases i <;> rfl
  show (m.execute keypad dice i).map (fun e => { e with
    machine := e.machine.replaced ((m.withMemory memory).memoryAfter i)
      ((m.withMemory memory).timersAfter i) }) = _
  rw [htimers]
  cases hi : m.execute keypad dice i with
  | error fault => rfl
  | ok e =>
    have hkept : e.machine.timers = m.timersAfter i := by rw [machine_of_execute hi]
    rw [← hkept]
    rfl

/-- An instruction writes the same to memories that agree outside of some cells. -/
theorem memoryAfter_agreeOutside (m : Machine) {memory : Memory}
    (h : m.memory.AgreeOutside D memory) (i : Instruction) :
    (m.memoryAfter i).AgreeOutside D ((m.withMemory memory).memoryAfter i) := by
  cases i with
  | decimal x => exact h.writeAll m.index.toNat (decimalDigits (m.register x))
  | store x => exact h.writeAll m.index.toNat (m.block x)
  | _ => exact h

/-- **A step does the same on machines that differ at most in cells that it does not read.** -/
theorem alike_step {m m' : Machine} (h : m.AgreeOutside D m') (hunread : ∀ c, D c → ¬m.Reads c)
    (keypad : Keypad) (dice : UInt8) :
    (m.step keypad dice).Alike D (m'.step keypad dice) := by
  obtain ⟨hm', hmemory⟩ := h
  generalize m'.memory = memory at hm' hmemory
  subst hm'
  by_cases ha : m.IsActive
  · have ha' : (m.withMemory memory).IsActive := ha
    have hfetch : (m.withMemory memory).fetch = m.fetch :=
      hmemory.word_eq fun c hc hd => hunread c hd ⟨ha, .inl hc⟩
    have hline : (m.withMemory memory).nextLine = m.nextLine := by
      unfold nextLine
      rw [hfetch]
      rfl
    rw [step_of_isActive ha, step_of_isActive ha', hfetch, hline]
    cases hw : Instruction.ofWord? m.fetch with
    | none => exact ⟨rfl, m.agreeOutside_withMemory hmemory, rfl, rfl⟩
    | some i =>
      have hread : memory.bytes m.index.toNat i.readCount =
          m.memory.bytes m.index.toNat i.readCount :=
        hmemory.bytes_eq fun c hc hd => hunread c hd ⟨ha, .inr ⟨i, hw, hc⟩⟩
      simp only [execute_withMemory m memory keypad dice hread]
      cases hi : m.execute keypad dice i with
      | error fault => exact ⟨rfl, m.agreeOutside_withMemory hmemory, rfl, rfl⟩
      | ok e =>
        have hafter : (m.advanced e).memory = m.memoryAfter i := by
          rw [advanced, machine_of_execute hi]
        refine ⟨rfl, (m.advanced e).agreeOutside_withMemory ?_, rfl, rfl⟩
        rw [hafter]
        exact m.memoryAfter_agreeOutside hmemory i
  · have hidle := Classical.not_not.1 (mt m.isActive_iff.2 ha)
    have hidle' : ((m.withMemory memory).flags.pause || (m.withMemory memory).isWaiting) = true :=
      hidle
    rw [step_of_idle hidle, step_of_idle hidle']
    exact ⟨rfl, m.agreeOutside_withMemory hmemory, rfl, rfl⟩

/-! ## Operations -/

theorem alike_tick {m m' : Machine} (h : m.AgreeOutside D m') : m.tick.Alike D m'.tick := by
  obtain ⟨hm', hmemory⟩ := h
  generalize m'.memory = memory at hm' hmemory
  subst hm'
  have hpause : (m.withMemory memory).flags.pause = m.flags.pause := rfl
  cases hp : m.flags.pause with
  | true =>
    rw [tick_of_pause hp, tick_of_pause (hpause.trans hp)]
    exact ⟨rfl, m.agreeOutside_withMemory hmemory, rfl, rfl⟩
  | false =>
    rw [tick_of_not_pause hp, tick_of_not_pause (hpause.trans hp)]
    exact ⟨rfl, ⟨rfl, hmemory⟩, rfl, rfl⟩

theorem alike_multistep {m m' : Machine} (h : m.AgreeOutside D m') {s : Surroundings} {n : Nat}
    (hunread : ∀ t ∈ m.walk (m.stepSingles s n), ∀ c, D c → ¬t.Reads c) :
    (m.multistep s n).Alike D (m'.multistep s n) := by
  induction n generalizing m m' s with
  | zero =>
    rw [multistep_zero, multistep_zero]
    exact alike_tick h
  | succ n ih =>
    have hstep : (m.step s.keypad (s.dice 0)).Alike D (m'.step s.keypad (s.dice 0)) :=
      alike_step h (fun c hc hr => hunread _ List.mem_cons_self c hc ⟨rfl, hr⟩) _ _
    have hrest : ∀ t ∈ (m.step s.keypad (s.dice 0)).machine.walk _, ∀ c, D c → ¬t.Reads c :=
      fun t ht => hunread t (List.mem_cons_of_mem _ ht)
    rw [multistep_succ, multistep_succ]
    generalize m.step s.keypad (s.dice 0) = r at hstep hrest
    generalize m'.step s.keypad (s.dice 0) = r' at hstep
    obtain ⟨answer, machine, events, trace⟩ := r
    obtain ⟨answer', machine', events', trace'⟩ := r'
    have hmachine : machine.AgreeOutside D machine' := hstep.machine
    obtain rfl : answer = answer' := hstep.answer.symm
    obtain rfl : events = events' := hstep.events.symm
    obtain rfl : trace = trace' := hstep.trace.symm
    cases answer with
    | error fault => exact ⟨rfl, hmachine, rfl, rfl⟩
    | ok =>
      obtain ⟨hanswer, hafter, hevents, htrace⟩ := ih hmachine hrest
      exact ⟨hanswer, hafter, congrArg (events ++ ·) hevents, congrArg (trace ++ ·) htrace⟩

/-- **An operation does the same on machines that differ at most in cells that it does not
read.** -/
theorem alike_act {m m' : Machine} (h : m.AgreeOutside D m') {a : Action}
    (hunread : ∀ t ∈ m.moments [a], ∀ c, D c → ¬t.Reads c) : (m.act a).Alike D (m'.act a) := by
  obtain ⟨s, o⟩ := a
  cases o with
  | step =>
    have hstep := hunread ⟨m, s, .step⟩ List.mem_cons_self
    exact (alike_step h (fun c hc hr => hstep c hc ⟨rfl, hr⟩) _ _).map _
  | multistep n =>
    refine (alike_multistep h fun t ht => hunread t ?_).map _
    rw [moments_cons]
    exact List.mem_append_left _ ht
  | tick => exact (alike_tick h).map _
  | reset =>
    refine Report.Alike.map ?_ _
    rw [h.1]
    exact ⟨rfl, .refl D m.reset.machine, rfl, rfl⟩
  | load rom =>
    refine Report.Alike.map ?_ _
    rw [h.1, load, load]
    split
    · exact ⟨rfl, m.agreeOutside_withMemory h.2, rfl, rfl⟩
    · exact ⟨rfl, .refl D { m with rom := rom }.reset.machine, rfl, rfl⟩
  | deliverKey key =>
    refine Report.Alike.map ?_ _
    rw [h.1]
    rcases UInt8.lt_or_le 0xf key with hlt | hle
    · rw [deliverKey_of_lt _ hlt, deliverKey_of_lt _ hlt]
      exact ⟨rfl, m.agreeOutside_withMemory h.2, rfl, rfl⟩
    · cases hstatus : m.status with
      | running =>
        rw [deliverKey_of_running hstatus hle,
          deliverKey_of_running (m := m.withMemory m'.memory) hstatus hle]
        exact ⟨rfl, m.agreeOutside_withMemory h.2, rfl, rfl⟩
      | waiting x =>
        rw [deliverKey_of_waiting hstatus hle,
          deliverKey_of_waiting (m := m.withMemory m'.memory) hstatus hle]
        exact ⟨rfl, ⟨rfl, h.2⟩, rfl, rfl⟩
  | setRegister register value =>
    refine Report.Alike.map ?_ _
    rw [h.1, setRegister, setRegister]
    split
    · exact ⟨rfl, ⟨rfl, h.2⟩, rfl, rfl⟩
    · exact ⟨rfl, ⟨rfl, h.2⟩, rfl, rfl⟩
  | editMemory edit =>
    refine Report.Alike.map ?_ _
    rw [h.1, editMemory, editMemory]
    rcases h.2.apply edit with ⟨fault, hm, hm'⟩ | ⟨memory, memory', hm, hm', hagree⟩
    · simp only [withMemory, hm, hm']
      exact ⟨rfl, m.agreeOutside_withMemory h.2, rfl, rfl⟩
    · simp only [withMemory, hm, hm']
      exact ⟨rfl, ⟨rfl, hagree⟩, rfl, rfl⟩
  | setFlags flags =>
    rw [h.1]
    exact ⟨rfl, ⟨rfl, h.2⟩, rfl, rfl⟩

/-! ## Runs -/

/-- Runs lead from machines that differ at most in some cells to machines that do, as long as no
step reads one of these. -/
theorem agreeOutside_run {m m' : Machine} (h : m.AgreeOutside D m') {actions : List Action}
    (hunread : ∀ t ∈ m.moments actions, ∀ c, D c → ¬t.Reads c) :
    (m.run actions).machine.AgreeOutside D (m'.run actions).machine := by
  induction actions generalizing m m' with
  | nil => exact h
  | cons a rest ih =>
    have hsplit : a :: rest = [a] ++ rest := rfl
    rw [hsplit, moments_append, run_singleton] at hunread
    have hfirst := alike_act h fun t ht => hunread t (List.mem_append_left _ ht)
    exact ih hfirst.machine fun t ht => hunread t (List.mem_append_right _ ht)

/-- **Memory that is not read makes no difference.** Take two machines that differ at most in the
cells `D` of memory, and do the same with both. As long as on the first one no step reads one of
these cells, each operation has the same answer and tells the same on both, and leaves machines that
differ at most in these cells. -/
theorem unread_memory {m m' : Machine} (h : m.AgreeOutside D m') {actions : List Action}
    (hunread : ∀ t ∈ m.moments actions, ∀ c, D c → ¬t.Reads c) :
    ∀ before a later, actions = before ++ a :: later →
      ((m.run before).machine.act a).Alike D ((m'.run before).machine.act a) := by
  rintro before a later rfl
  have hsplit : before ++ a :: later = before ++ ([a] ++ later) := rfl
  rw [hsplit, moments_append, moments_append] at hunread
  have hbefore := agreeOutside_run h fun t ht => hunread t (List.mem_append_left _ ht)
  exact alike_act hbefore fun t ht =>
    hunread t (List.mem_append_right _ (List.mem_append_left _ ht))

/-- A machine whose program loads the first register from the beginning of memory. -/
def loading : Machine :=
  ((new {}).load [0xf0, 0x65]).machine

/-- What stands at `0x300` makes no difference to the program of `loading`. -/
theorem unread_memory_loading :
    let D : Fin 4096 → Prop := fun c => c.val = 0x300
    let other := loading.withMemory (loading.memory.write 0x300 7)
    let load : Action := ⟨.calm, .step⟩
    loading.AgreeOutside D other ∧
      (∀ t ∈ loading.moments [load], ∀ c, D c → ¬t.Reads c) ∧
      (loading.act load).Alike D (other.act load) := by
  intro D other load
  have hrom : loading.memory.HoldsOnly [0xf0, 0x65] := Memory.holdsOnly_writeAll (by decide)
  have hfetch : loading.fetch = 0xf065 := fetch_of_holdsOnly (k := 0) hrom rfl (by decide)
  have hword : Instruction.ofWord? loading.fetch = some (.load 0) := by
    rw [hfetch]
    rfl
  have hagree : loading.AgreeOutside D other := by
    refine loading.agreeOutside_withMemory fun c hc => ?_
    rw [Memory.read_write, if_neg]
    intro heq
    have hcell : c.val % 4096 = 0x300 := heq.symm
    exact hc ((Nat.mod_eq_of_lt c.isLt).symm.trans hcell)
  have hunread : ∀ t ∈ loading.moments [load], ∀ c, D c → ¬t.Reads c := by
    rintro t ht c (hc : c.val = 0x300) ⟨-, -, hreads⟩
    obtain rfl := List.mem_singleton.1 ht
    rcases hreads with ⟨k, hk, hpc⟩ | ⟨i, hi, k, hk, hindex⟩
    · have hpc' : c.val = (0x200 + k) % 4096 := hpc
      omega
    · obtain rfl : Instr.load 0 = i := Option.some.inj (hword.symm.trans hi)
      have hk' : k < 1 := hk
      have hindex' : c.val = (0 + k) % 4096 := hindex
      omega
  exact ⟨hagree, hunread, unread_memory hagree hunread [] load [] rfl⟩

end Machine

end Chip8
