import Chip8.Proofs.Footprint
import Chip8.Proofs.Restart

/-!
# Trace and dialect

How a machine is set up, apart from the pause, is whether it writes a trace and which dialect it
speaks. Two machines that differ in nothing else do the same until an instruction comes that their
dialects read differently, and even that one changes only the part that it is about.

* `Machine.AgreeButSetup` relates machines that differ at most in trace and dialect, and
  `Instr.TellsApart` says which instructions two dialects read differently.
* `Machine.execute_withSetup` and `Machine.agreeButSetup_step` are the laws of one instruction.
* `SideBySide` relates the moments of two runs up to the first such instruction;
  `Machine.sideBySide_moments` says that the runs do go side by side.
* `Machine.setup_noninterfering` adds the answers and events of whole operations, and what becomes
  of the machines when an instruction does tell them apart.
-/

namespace Chip8

/-- Whether two dialects read an instruction differently. -/
def Instr.TellsApart (d d' : Dialect) : Instruction → Prop
  | .addIndex _ => d.keepFlag ≠ d'.keepFlag
  | .store _ | .load _ => d.keepIndex ≠ d'.keepIndex
  | _ => False

namespace Machine

/-- The machine with the trace switched on or off, and with another dialect. -/
def withSetup (m : Machine) (debug : Bool) (dialect : Dialect) : Machine :=
  { m with flags := { m.flags with debug := debug, dialect := dialect } }

/-- The machines differ at most in the trace flag and in the dialect. -/
def AgreeButSetup (m m' : Machine) : Prop :=
  m' = m.withSetup m'.flags.debug m'.flags.dialect

theorem agreeButSetup_withSetup (m : Machine) (debug : Bool) (dialect : Dialect) :
    m.AgreeButSetup (m.withSetup debug dialect) := rfl

theorem AgreeButSetup.exists_eq {m m' : Machine} (h : m.AgreeButSetup m') :
    ∃ debug dialect, m' = m.withSetup debug dialect :=
  ⟨_, _, h⟩

end Machine

/-- Two reports have the same answer and the same events, and leave machines that differ at most in
the trace flag and in the dialect. -/
structure Report.AgreeButSetup {α : Type} (r r' : Report α) : Prop where
  answer : r'.answer = r.answer
  machine : r.machine.AgreeButSetup r'.machine
  events : r'.events = r.events

theorem Report.AgreeButSetup.map {α β : Type} {r r' : Report α} (h : r.AgreeButSetup r')
    (f : α → β) : (r.map f).AgreeButSetup (r'.map f) where
  answer := congrArg (Except.map f) h.answer
  machine := h.machine
  events := h.events

/-- The same instruction is executed at two moments, and the dialects read it differently. -/
def Moment.TellsApart (t t' : Moment) : Prop :=
  ∃ i, t.Executes i ∧ t'.Executes i ∧
    i.TellsApart t.machine.flags.dialect t'.machine.flags.dialect

namespace Machine

/-! ## Instructions -/

section Instructions

variable (m : Machine) (debug : Bool) (dialect : Dialect)

theorem calculated_withSetup (c : Calculation) (x y : Fin 16) :
    (m.withSetup debug dialect).calculated c x y =
      (m.calculated c x y).withSetup debug dialect := by
  cases c <;> rfl

theorem returned_withSetup :
    (m.withSetup debug dialect).returned =
      m.returned.map fun e => { e with machine := e.machine.withSetup debug dialect } := by
  have hstack : (m.withSetup debug dialect).stack = m.stack := rfl
  unfold returned
  rw [hstack]
  cases m.stack <;> rfl

theorem callTo_withSetup (a : Fin 4096) :
    (m.withSetup debug dialect).callTo a =
      (m.callTo a).map fun e => { e with machine := e.machine.withSetup debug dialect } := by
  have hstack : (m.withSetup debug dialect).stack = m.stack := rfl
  unfold callTo
  rw [hstack]
  split <;> rfl

variable {dialect} in
theorem indexAdvanced_withSetup (h : m.flags.dialect.keepFlag = dialect.keepFlag) (b : UInt8) :
    (m.withSetup debug dialect).indexAdvanced b =
      (m.indexAdvanced b).withSetup debug dialect := by
  have hflag : (m.withSetup debug dialect).flags.dialect.keepFlag = m.flags.dialect.keepFlag :=
    h.symm
  unfold indexAdvanced
  rw [hflag]
  dsimp only
  split <;> rfl

variable {dialect} in
theorem pastBlock_withSetup (h : m.flags.dialect.keepIndex = dialect.keepIndex) (x : Fin 16) :
    (m.withSetup debug dialect).pastBlock x = (m.pastBlock x).withSetup debug dialect := by
  have hindex : (m.withSetup debug dialect).flags.dialect.keepIndex =
      m.flags.dialect.keepIndex := h.symm
  unfold pastBlock
  rw [hindex]
  split <;> rfl

/-- **An instruction that the dialects read alike does the same in both**, with the trace or
without. -/
theorem execute_withSetup (keypad : Keypad) (dice : UInt8) {i : Instruction}
    (h : ¬i.TellsApart m.flags.dialect dialect) :
    (m.withSetup debug dialect).execute keypad dice i =
      (m.execute keypad dice i).map fun e =>
        { e with machine := e.machine.withSetup debug dialect } := by
  cases i with
  | ret => exact m.returned_withSetup debug dialect
  | call a => exact m.callTo_withSetup debug dialect a
  | skip expected test => cases test <;> rfl
  | calculate c x y =>
    simp only [execute, calculated_withSetup]
    rfl
  | addIndex x =>
    have hmoved := m.indexAdvanced_withSetup debug (Classical.not_not.1 h) (m.register x)
    exact congrArg (fun after => (.ok ⟨after, .next, []⟩ : Except Fault Effect)) hmoved
  | store x =>
    let stored := { m with memory := m.memory.writeAll m.index.toNat (m.block x) }
    have hpast := stored.pastBlock_withSetup debug (Classical.not_not.1 h) x
    exact congrArg (fun after => (.ok ⟨after, .next, []⟩ : Except Fault Effect)) hpast
  | load x =>
    have hpast := (m.withBlock x).pastBlock_withSetup debug (Classical.not_not.1 h) x
    exact congrArg (fun after => (.ok ⟨after, .next, []⟩ : Except Fault Effect)) hpast
  | _ => rfl

theorem exists_execute_of_tellsApart (keypad : Keypad) (dice : UInt8) {d d' : Dialect}
    {i : Instruction} (h : i.TellsApart d d') : ∃ e, m.execute keypad dice i = .ok e := by
  cases i with
  | addIndex | store | load => exact ⟨_, rfl⟩
  | _ => exact h.elim

end Instructions

/-! ## Operations -/

/-- **A step does the same on machines that agree but for the setup**, unless it executes an
instruction that their dialects read differently. -/
theorem agreeButSetup_step {m m' : Machine} (h : m.AgreeButSetup m') (s : Surroundings)
    (hno : ¬Moment.TellsApart ⟨m, s, .step⟩ ⟨m', s, .step⟩) :
    (m.step s.keypad (s.dice 0)).AgreeButSetup (m'.step s.keypad (s.dice 0)) := by
  obtain ⟨debug, dialect, rfl⟩ := h.exists_eq
  by_cases ha : m.IsActive
  · have ha' : (m.withSetup debug dialect).IsActive := ha
    have hfetch : (m.withSetup debug dialect).fetch = m.fetch := rfl
    rw [step_of_isActive ha, step_of_isActive ha', hfetch]
    cases hw : Instruction.ofWord? m.fetch with
    | none => exact ⟨rfl, h, rfl⟩
    | some i =>
      have hi : ¬i.TellsApart m.flags.dialect dialect := by
        intro hi
        obtain ⟨e, he⟩ := m.exists_execute_of_tellsApart s.keypad (s.dice 0) hi
        obtain ⟨e', he'⟩ :=
          (m.withSetup debug dialect).exists_execute_of_tellsApart s.keypad (s.dice 0) hi
        exact hno ⟨i, (Moment.executes_of_execute ha hw he).1,
          (Moment.executes_of_execute ha' hw he').1, hi⟩
      simp only [m.execute_withSetup debug dialect s.keypad (s.dice 0) hi]
      cases m.execute s.keypad (s.dice 0) i with
      | error fault => exact ⟨rfl, h, rfl⟩
      | ok e => exact ⟨rfl, (m.advanced e).agreeButSetup_withSetup debug dialect, rfl⟩
  · have hidle := Classical.not_not.1 (mt m.isActive_iff.2 ha)
    have hidle' : ((m.withSetup debug dialect).flags.pause ||
        (m.withSetup debug dialect).isWaiting) = true := hidle
    rw [step_of_idle hidle, step_of_idle hidle']
    exact ⟨rfl, h, rfl⟩

theorem agreeButSetup_tick {m m' : Machine} (h : m.AgreeButSetup m') :
    m.tick.AgreeButSetup m'.tick := by
  obtain ⟨debug, dialect, rfl⟩ := h.exists_eq
  have hpause : (m.withSetup debug dialect).flags.pause = m.flags.pause := rfl
  unfold tick
  rw [hpause]
  split
  · exact ⟨rfl, h, rfl⟩
  · exact ⟨rfl, rfl, rfl⟩

/-- An operation other than steps does the same on machines that agree but for the setup. -/
theorem agreeButSetup_act {m m' : Machine} (h : m.AgreeButSetup m') {a : Action}
    (hsingle : a.operation.IsSingle) (hno : ¬Moment.TellsApart ⟨m, a⟩ ⟨m', a⟩) :
    (m.act a).AgreeButSetup (m'.act a) := by
  obtain ⟨s, o⟩ := a
  cases o with
  | step => exact (agreeButSetup_step h s hno).map _
  | multistep n => exact hsingle.elim
  | tick => exact (agreeButSetup_tick h).map _
  | setFlags flags =>
    obtain ⟨debug, dialect, rfl⟩ := h.exists_eq
    exact ⟨rfl, rfl, rfl⟩
  | reset =>
    obtain ⟨debug, dialect, rfl⟩ := h.exists_eq
    exact ⟨rfl, rfl, rfl⟩
  | load rom =>
    obtain ⟨debug, dialect, rfl⟩ := h.exists_eq
    refine Report.AgreeButSetup.map ?_ _
    unfold load
    split
    · exact ⟨rfl, h, rfl⟩
    · exact ⟨rfl, rfl, rfl⟩
  | deliverKey key =>
    obtain ⟨debug, dialect, rfl⟩ := h.exists_eq
    refine Report.AgreeButSetup.map ?_ _
    have hstatus : (m.withSetup debug dialect).status = m.status := rfl
    unfold deliverKey
    rw [hstatus]
    split
    · exact ⟨rfl, h, rfl⟩
    · split
      · exact ⟨rfl, h, rfl⟩
      · exact ⟨rfl, rfl, rfl⟩
  | setRegister register value =>
    obtain ⟨debug, dialect, rfl⟩ := h.exists_eq
    refine Report.AgreeButSetup.map ?_ _
    unfold setRegister
    split
    · exact ⟨rfl, rfl, rfl⟩
    · exact ⟨rfl, h, rfl⟩
  | editMemory edit =>
    obtain ⟨debug, dialect, rfl⟩ := h.exists_eq
    refine Report.AgreeButSetup.map ?_ _
    have hmemory : (m.withSetup debug dialect).memory = m.memory := rfl
    unfold editMemory
    rw [hmemory]
    split
    · exact ⟨rfl, rfl, rfl⟩
    · exact ⟨rfl, h, rfl⟩

end Machine

/-! ## Moments side by side -/

/-- No instruction tells the machines of two runs apart. -/
def NeverApart (ts ts' : List Moment) : Prop :=
  ∀ p ∈ ts.zip ts', ¬p.1.TellsApart p.2

/-- The moments of two runs go side by side, up to the first instruction that tells the machines
apart. -/
inductive SideBySide : List Moment → List Moment → Prop
  /-- Both runs are over. -/
  | nil : SideBySide [] []
  /-- The same is done with machines that agree, and leaves reports that agree. -/
  | agree {t t' : Moment} {later later' : List Moment}
      (machine : t.machine.AgreeButSetup t'.machine) (action : t'.action = t.action)
      (hno : ¬t.TellsApart t') (report : t.report.AgreeButSetup t'.report)
      (rest : SideBySide later later') : SideBySide (t :: later) (t' :: later')
  /-- The machines agree, but the instruction tells them apart. -/
  | apart {t t' : Moment} {later later' : List Moment}
      (machine : t.machine.AgreeButSetup t'.machine) (action : t'.action = t.action)
      (h : t.TellsApart t') : SideBySide (t :: later) (t' :: later')

theorem neverApart_cons {t t' : Moment} {later later' : List Moment} :
    NeverApart (t :: later) (t' :: later') ↔ ¬t.TellsApart t' ∧ NeverApart later later' := by
  simp [NeverApart]

namespace SideBySide

theorem append {ts ts' us us' : List Moment} (h : SideBySide ts ts')
    (hrest : NeverApart ts ts' → SideBySide us us') : SideBySide (ts ++ us) (ts' ++ us') := by
  induction h with
  | nil => exact hrest fun p hp => absurd hp List.not_mem_nil
  | agree machine action hno report rest ih =>
    refine .agree machine action hno report (ih fun hlater => hrest ?_)
    exact neverApart_cons.2 ⟨hno, hlater⟩
  | apart machine action h => exact .apart machine action h

/-- Runs that never part do so neither in their first moments nor in those after them. -/
theorem neverApart_append {ts ts' us us' : List Moment} (h : SideBySide ts ts')
    (hno : NeverApart (ts ++ us) (ts' ++ us')) : NeverApart ts ts' ∧ NeverApart us us' := by
  induction h with
  | nil => exact ⟨fun p hp => absurd hp List.not_mem_nil, hno⟩
  | agree machine action hfirst report rest ih =>
    obtain ⟨hlater, hafter⟩ := ih (neverApart_cons.1 hno).2
    exact ⟨neverApart_cons.2 ⟨hfirst, hlater⟩, hafter⟩
  | apart machine action h => exact absurd h (neverApart_cons.1 hno).1

end SideBySide

namespace Machine

theorem sideBySide_single {m m' : Machine} (h : m.AgreeButSetup m') {a : Action}
    (hsingle : a.operation.IsSingle) : SideBySide (m.walk [a]) (m'.walk [a]) := by
  by_cases ht : Moment.TellsApart ⟨m, a⟩ ⟨m', a⟩
  · exact .apart h rfl ht
  · exact .agree h rfl ht (agreeButSetup_act h hsingle ht) .nil

/-- Several steps and a tick go side by side, and agree as a whole if none of them tells the
machines apart. -/
theorem sideBySide_stepSingles {m m' : Machine} (h : m.AgreeButSetup m') (s : Surroundings)
    (n : Nat) :
    SideBySide (m.walk (m.stepSingles s n)) (m'.walk (m'.stepSingles s n)) ∧
      (NeverApart (m.walk (m.stepSingles s n)) (m'.walk (m'.stepSingles s n)) →
        (m.multistep s n).AgreeButSetup (m'.multistep s n)) := by
  induction n generalizing m m' s with
  | zero =>
    refine ⟨sideBySide_single h trivial, fun _ => ?_⟩
    rw [multistep_zero, multistep_zero]
    exact agreeButSetup_tick h
  | succ n ih =>
    by_cases ht : Moment.TellsApart ⟨m, s, .step⟩ ⟨m', s, .step⟩
    · exact ⟨.apart h rfl ht, fun hno => absurd ht (neverApart_cons.1 hno).1⟩
    · have hstep := agreeButSetup_step h s ht
      have hact := agreeButSetup_act (a := ⟨s, .step⟩) h trivial ht
      rw [multistep_succ, multistep_succ, stepSingles, stepSingles]
      cases hanswer : (m.step s.keypad (s.dice 0)).answer with
      | error fault =>
        have hanswer' : (m'.step s.keypad (s.dice 0)).answer = .error fault :=
          hstep.answer.trans hanswer
        simp only [hanswer, hanswer']
        exact ⟨.agree h rfl ht hact .nil, fun _ => hstep⟩
      | ok =>
        have hanswer' : (m'.step s.keypad (s.dice 0)).answer = .ok () :=
          hstep.answer.trans hanswer
        obtain ⟨hside, hagree⟩ := ih hstep.machine (s.drop 1)
        simp only [hanswer, hanswer']
        refine ⟨.agree h rfl ht hact hside, fun hno => ?_⟩
        have hrest := hagree (neverApart_cons.1 hno).2
        exact ⟨hrest.answer, hrest.machine, by rw [hstep.events, hrest.events]⟩

theorem sideBySide_singlesOf {m m' : Machine} (h : m.AgreeButSetup m') (a : Action) :
    SideBySide (m.walk (m.singlesOf a)) (m'.walk (m'.singlesOf a)) ∧
      (NeverApart (m.walk (m.singlesOf a)) (m'.walk (m'.singlesOf a)) →
        (m.act a).AgreeButSetup (m'.act a)) := by
  obtain ⟨s, o⟩ := a
  have hsingle : ∀ a : Action, a.operation.IsSingle →
      SideBySide (m.walk [a]) (m'.walk [a]) ∧
        (NeverApart (m.walk [a]) (m'.walk [a]) → (m.act a).AgreeButSetup (m'.act a)) :=
    fun a ha => ⟨sideBySide_single h ha, fun hno =>
      agreeButSetup_act h ha (neverApart_cons.1 hno).1⟩
  cases o with
  | multistep n =>
    obtain ⟨hside, hagree⟩ := sideBySide_stepSingles h s n
    exact ⟨hside, fun hno => (hagree hno).map _⟩
  | _ => exact hsingle _ trivial

/-! ## Runs -/

/-- **Two runs go side by side** from machines that agree but for the setup. -/
theorem sideBySide_moments {m m' : Machine} (h : m.AgreeButSetup m') (actions : List Action) :
    SideBySide (m.moments actions) (m'.moments actions) := by
  induction actions generalizing m m' with
  | nil => exact .nil
  | cons a rest ih =>
    obtain ⟨hside, hagree⟩ := sideBySide_singlesOf h a
    rw [moments_cons, moments_cons]
    exact hside.append fun hno => ih (hagree hno).machine

/-- An operation after others has the same answer and tells the same, if the runs never part up to
its end. -/
theorem agreeButSetup_act_run {m m' : Machine} (h : m.AgreeButSetup m') {before : List Action}
    {a : Action}
    (hno : NeverApart (m.moments (before ++ [a])) (m'.moments (before ++ [a]))) :
    ((m.run before).machine.act a).AgreeButSetup ((m'.run before).machine.act a) := by
  induction before generalizing m m' with
  | nil =>
    obtain ⟨hside, hagree⟩ := sideBySide_singlesOf h a
    rw [List.nil_append, moments_cons, moments_cons] at hno
    exact hagree (hside.neverApart_append hno).1
  | cons b before ih =>
    obtain ⟨hside, hagree⟩ := sideBySide_singlesOf h b
    rw [List.cons_append, moments_cons, moments_cons] at hno
    obtain ⟨hfirst, hrest⟩ := hside.neverApart_append hno
    exact ih (hagree hfirst).machine hrest

/-! ## Instructions that tell machines apart -/

/-- Adding to the index leaves the same in both dialects, apart from the flag register. -/
theorem indexAdvanced_agreeButSetup (m : Machine) (debug : Bool) (dialect : Dialect) (b : UInt8) :
    let after := (m.withSetup debug dialect).indexAdvanced b
    ((m.indexAdvanced b).withRegister 0xf (after.register 0xf)).AgreeButSetup after := by
  intro after
  have hregisters : ((m.indexAdvanced b).withRegister 0xf (after.register 0xf)).registers =
      after.registers := by
    refine Vector.ext fun z hz => ?_
    have hset := (m.indexAdvanced b).register_withRegister 0xf ⟨z, hz⟩ (after.register 0xf)
    refine hset.trans ?_
    split
    · rename_i hflag
      exact congrArg after.register hflag
    · rename_i hflag
      have hno : ∀ d : Dialect, ¬((⟨z, hz⟩ : Fin 16) = 0xf ∧ d.keepFlag = false) :=
        fun _ h => hflag h.1.symm
      have hleft := m.register_indexAdvanced (b := b) (hno _)
      have hright := (m.withSetup debug dialect).register_indexAdvanced (b := b) (hno _)
      exact hleft.trans hright.symm
  have hafter := (m.withSetup debug dialect).indexAdvanced_eq b
  have hbefore := congrArg (fun r => r.withRegister 0xf (after.register 0xf))
    (m.indexAdvanced_eq b)
  have hflags : after.flags = (m.withSetup debug dialect).flags := (congrArg flags hafter :)
  rw [AgreeButSetup, hflags]
  refine hafter.trans ?_
  rw [hbefore]
  let advanced : Vector UInt8 16 → Machine := fun registers =>
    { m.withSetup debug dialect with
      index := Word.wrap (m.index.toNat + b.toNat), registers := registers }
  exact congrArg advanced hregisters.symm

/-- The machine with another index. -/
def withIndex (m : Machine) (a : UInt16) : Machine :=
  { m with index := a }

/-- Going past a block leaves the same in both dialects, apart from the index. -/
theorem pastBlock_agreeButSetup (m : Machine) (debug : Bool) (dialect : Dialect) (x : Fin 16) :
    let after := (m.withSetup debug dialect).pastBlock x
    ((m.pastBlock x).withIndex after.index).AgreeButSetup after := by
  intro after
  simp only [after, pastBlock_eq]
  rfl

/-- The machine at the next instruction, where `pc` and `cycle` are what they were before. -/
def nextInstruction (m : Machine) (pc : UInt16) (cycle : Nat) : Machine :=
  { m with pc := Word.wrap (pc.toNat + 2), cycle := cycle + 1 }

/-- What the same instruction leaves of two machines that agree but for the setup, read off its two
effects. -/
theorem report_of_execute_withSetup {m : Machine} {s : Surroundings} {i : Instruction}
    {e e' : Effect} {debug : Bool} {dialect : Dialect} (h : Moment.Executes ⟨m, s, .step⟩ i)
    (he : m.execute s.keypad (s.dice 0) i = .ok e)
    (he' : (m.withSetup debug dialect).execute s.keypad (s.dice 0) i = .ok e') :
    let t : Moment := ⟨m, s, .step⟩
    let t' : Moment := ⟨m.withSetup debug dialect, s, .step⟩
    t'.Executes i ∧ t.report.machine = m.advanced e ∧
      t'.report.machine = (m.withSetup debug dialect).advanced e' := by
  intro t t'
  have hactive : m.IsActive := h.active
  have hword : Instruction.ofWord? m.fetch = some i := h.word
  obtain ⟨-, hmachine⟩ := Moment.executes_of_execute hactive hword he
  obtain ⟨hexecutes', hmachine'⟩ :=
    Moment.executes_of_execute (m := m.withSetup debug dialect) hactive hword he'
  exact ⟨hexecutes', hmachine, hmachine'⟩

/-- **Adding to the index differs at most in the flag register.** -/
theorem report_addIndex_agreeButSetup {m m' : Machine} (h : m.AgreeButSetup m') {s : Surroundings}
    {x : Fin 16} (hx : Moment.Executes ⟨m, s, .step⟩ (.addIndex x)) :
    let t : Moment := ⟨m, s, .step⟩
    let t' : Moment := ⟨m', s, .step⟩
    let after := t'.report.machine
    t'.Executes (.addIndex x) ∧ t'.report.events = t.report.events ∧
      (t.report.machine.withRegister 0xf (after.register 0xf)).AgreeButSetup after := by
  obtain ⟨debug, dialect, rfl⟩ := h.exists_eq
  obtain ⟨hexecutes', hmachine, hmachine'⟩ := report_of_execute_withSetup hx rfl rfl
  refine ⟨hexecutes', ?_, ?_⟩
  · rw [hx.events_eq, hexecutes'.events_eq]
    rfl
  · rw [hmachine, hmachine']
    exact congrArg (·.nextInstruction m.pc m.cycle)
      (m.indexAdvanced_agreeButSetup debug dialect (m.register x))

/-- **Storing and loading registers differ at most in the index.** -/
theorem report_block_agreeButSetup {m m' : Machine} (h : m.AgreeButSetup m') {s : Surroundings}
    {x : Fin 16} {i : Instruction} (hi : i = .store x ∨ i = .load x)
    (hx : Moment.Executes ⟨m, s, .step⟩ i) :
    let t : Moment := ⟨m, s, .step⟩
    let t' : Moment := ⟨m', s, .step⟩
    let after := t'.report.machine
    t'.Executes i ∧ t'.report.events = t.report.events ∧
      (t.report.machine.withIndex after.index).AgreeButSetup after := by
  obtain ⟨debug, dialect, rfl⟩ := h.exists_eq
  rcases hi with rfl | rfl
  · obtain ⟨hexecutes', hmachine, hmachine'⟩ := report_of_execute_withSetup hx rfl rfl
    refine ⟨hexecutes', by rw [hx.events_eq, hexecutes'.events_eq]; rfl, ?_⟩
    rw [hmachine, hmachine']
    let stored := { m with memory := m.memory.writeAll m.index.toNat (m.block x) }
    exact congrArg (·.nextInstruction m.pc m.cycle)
      (stored.pastBlock_agreeButSetup debug dialect x)
  · obtain ⟨hexecutes', hmachine, hmachine'⟩ := report_of_execute_withSetup hx rfl rfl
    refine ⟨hexecutes', by rw [hx.events_eq, hexecutes'.events_eq]; rfl, ?_⟩
    rw [hmachine, hmachine']
    exact congrArg (·.nextInstruction m.pc m.cycle)
      ((m.withBlock x).pastBlock_agreeButSetup debug dialect x)

/-- **Trace and dialect interfere with nothing else.** Take two machines that differ at most in the
trace flag and in the dialect, and do the same with both.

* Moment by moment they go side by side, inside of several steps too, until an instruction is
  executed that their dialects read differently.
* As long as there is none, every operation has the same answer and tells the same on both, and
  leaves machines that differ at most in the trace flag and in the dialect.
* Adding to the index leaves machines that differ besides at most in the flag register, and storing
  or loading registers such that differ besides at most in the index. -/
theorem setup_noninterfering {m m' : Machine} (h : m.AgreeButSetup m') :
    (∀ actions, SideBySide (m.moments actions) (m'.moments actions)) ∧
    (∀ before a, NeverApart (m.moments (before ++ [a])) (m'.moments (before ++ [a])) →
      ((m.run before).machine.act a).AgreeButSetup ((m'.run before).machine.act a)) ∧
    ∀ s i,
      let t : Moment := ⟨m, s, .step⟩
      let t' : Moment := ⟨m', s, .step⟩
      let after := t'.report.machine
      t.Executes i →
        (∀ x, i = .addIndex x → t'.Executes i ∧ t'.report.events = t.report.events ∧
          (t.report.machine.withRegister 0xf (after.register 0xf)).AgreeButSetup after) ∧
        ∀ x, i = .store x ∨ i = .load x → t'.Executes i ∧ t'.report.events = t.report.events ∧
          (t.report.machine.withIndex after.index).AgreeButSetup after := by
  refine ⟨sideBySide_moments h, fun before a hno => agreeButSetup_act_run h hno, ?_⟩
  intro s i t t' after hi
  refine ⟨?_, fun x hx => report_block_agreeButSetup h hx hi⟩
  rintro x rfl
  exact report_addIndex_agreeButSetup h hi

/-- A machine whose program stores the first register. -/
def storing : Machine :=
  ((new {}).load [0xf0, 0x55]).machine

/-- With the trace on and the other dialect, a tick does the same with the program of `storing`, but
the instruction after it leaves the index where it is. -/
theorem setup_noninterfering_storing :
    let other := storing.withSetup true (.uniform true)
    let tick : Action := ⟨.calm, .tick⟩
    let t : Moment := ⟨storing, .calm, .step⟩
    let t' : Moment := ⟨other, .calm, .step⟩
    let after := t'.report.machine
    storing.AgreeButSetup other ∧
      NeverApart (storing.moments [tick]) (other.moments [tick]) ∧
      (storing.act tick).AgreeButSetup (other.act tick) ∧
      t.Executes (.store 0) ∧ t.report.machine.index = 1 ∧ after.index = 0 ∧
      (t.report.machine.withIndex after.index).AgreeButSetup after := by
  intro other tick t t' after
  have hrom : storing.memory.HoldsOnly [0xf0, 0x55] := Memory.holdsOnly_writeAll (by decide)
  have hfetch : storing.fetch = 0xf055 := fetch_of_holdsOnly (k := 0) hrom rfl (by decide)
  have hword : Instruction.ofWord? storing.fetch = some (.store 0) := by
    rw [hfetch]
    rfl
  have hactive : storing.IsActive := ⟨rfl, rfl⟩
  obtain ⟨hexecutes, hmachine⟩ :=
    Moment.executes_of_execute (s := .calm) hactive hword rfl
  obtain ⟨-, hmachine'⟩ :=
    Moment.executes_of_execute (m := other) (s := .calm) hactive hword rfl
  have hagree : storing.AgreeButSetup other := storing.agreeButSetup_withSetup true (.uniform true)
  have hno : NeverApart (storing.moments [tick]) (other.moments [tick]) := by
    refine neverApart_cons.2 ⟨?_, fun p hp => absurd hp List.not_mem_nil⟩
    rintro ⟨i, hi, -, -⟩
    exact Operation.noConfusion hi.step
  obtain ⟨-, hoperations, hinstructions⟩ := setup_noninterfering hagree
  obtain ⟨-, hblock⟩ := hinstructions .calm (.store 0) hexecutes
  obtain ⟨-, -, hindex⟩ := hblock 0 (.inl rfl)
  refine ⟨hagree, hno, hoperations [] tick hno, hexecutes, ?_, ?_, hindex⟩
  · rw [hmachine]
    rfl
  · show (Moment.report _).machine.index = 0
    rw [hmachine']
    rfl

end Machine

end Chip8
