import Chip8.Proofs.Restart
import Chip8.Proofs.Tone

/-!
# Waiting for a key

The instruction that waits for a key is done in two parts: a step that executes it leaves the
program counter where it is, and the delivery of a key moves it on. Whatever the host does in
between, apart from its own changes to registers, memory and program, the machine only counts its
timers down.

* `Machine.act_of_waiting` is the law of a single operation on a machine that waits, and
  `Machine.run_of_waiting` the one of several.
* `Moment.resumes_add_isWaiting_le` says how a single action begins or ends the waiting.
* `Machine.resumptions_le` counts: a machine is not resumed more often than it was made to wait.
* `Machine.key_awaited` is the whole life of such an instruction.
-/

namespace Chip8

/-- Whether an operation leaves a machine that waits for a key as it is, apart from timers and
flags: it is no key that exists, and no change that the host makes on its own. -/
def Operation.IsIdle : Operation → Prop
  | .step | .multistep _ | .tick | .setFlags _ => True
  | .deliverKey key => 0xf < key
  | .load _ | .reset | .setRegister _ _ | .editMemory _ => False

/-- What a machine that waits for a key answers to such an operation. -/
def Operation.idleAnswer : Operation → Except Fault (Option Bool)
  | .deliverKey key => .error (.invalidKey key.toNat)
  | _ => .ok none

namespace Machine

theorem isWaiting_iff (m : Machine) : m.isWaiting = true ↔ ∃ x, m.status = .waiting x := by
  rw [isWaiting, bne_iff_ne]
  constructor
  · intro h
    cases hs : m.status with
    | running => exact absurd hs h
    | waiting x => exact ⟨x, rfl⟩
  · rintro ⟨x, hx⟩ h
    cases hx.symm.trans h

/-! ## Waiting -/

theorem multistep_of_waiting {m : Machine} (h : m.isWaiting = true) (s : Surroundings) (n : Nat) :
    m.multistep s n = m.tick := by
  have hidle : (m.flags.pause || m.isWaiting) = true := by rw [h, Bool.or_true]
  induction n generalizing s with
  | zero => exact m.multistep_zero s
  | succ n ih =>
    rw [multistep_succ, step_of_idle hidle]
    show { m.multistep (s.drop 1) n with
      events := [] ++ (m.multistep (s.drop 1) n).events
      trace := [] ++ (m.multistep (s.drop 1) n).trace } = m.tick
    rw [ih, List.nil_append, List.nil_append]

/-- **A machine that waits changes nothing but its timers**, and has its flags changed. It tells of
nothing but the tone. -/
theorem act_of_waiting {m : Machine} (h : m.isWaiting = true) {a : Action}
    (ha : a.operation.IsIdle) :
    let r := m.act a
    r.answer = a.operation.idleAnswer ∧
      r.machine = { m with timers := r.machine.timers, flags := r.machine.flags } ∧
      ∀ e ∈ r.events, e.isTone = true := by
  obtain ⟨s, o⟩ := a
  have htick : m.tick.machine = { m with timers := m.tick.machine.timers } := m.machine_tick
  have hnone : ∀ e ∈ ([] : List Event), e.isTone = true := fun _ he => absurd he List.not_mem_nil
  cases o with
  | load rom | reset | setRegister register value | editMemory edit => exact ha.elim
  | step =>
    have hstep : m.act ⟨s, .step⟩ = (Report.done m).map fun _ => none := by
      show (m.step s.keypad (s.dice 0)).map _ = _
      rw [step_of_idle (by rw [h, Bool.or_true])]
    rw [hstep]
    exact ⟨rfl, rfl, hnone⟩
  | multistep n =>
    have hmultistep : m.act ⟨s, .multistep n⟩ = m.tick.map fun _ => none := by
      show (m.multistep s n).map _ = _
      rw [multistep_of_waiting h]
    rw [hmultistep]
    refine ⟨congrArg (Except.map _) m.answer_tick, ?_, m.isTone_of_mem_events_tick⟩
    show m.tick.machine = { m with timers := m.tick.machine.timers, flags := m.tick.machine.flags }
    rw [htick]
  | tick =>
    refine ⟨congrArg (Except.map _) m.answer_tick, ?_, m.isTone_of_mem_events_tick⟩
    show m.tick.machine = { m with timers := m.tick.machine.timers, flags := m.tick.machine.flags }
    rw [htick]
  | deliverKey key =>
    have hkey : m.act ⟨s, .deliverKey key⟩ = .refused (.invalidKey key.toNat) m := by
      show (m.deliverKey key).map _ = _
      rw [m.deliverKey_of_lt ha]
      rfl
    rw [hkey]
    exact ⟨rfl, rfl, hnone⟩
  | setFlags flags => exact ⟨rfl, rfl, hnone⟩

theorem run_of_waiting {m : Machine} (h : m.isWaiting = true) {idle : List Action}
    (hidle : ∀ a ∈ idle, a.operation.IsIdle) :
    let after := (m.run idle).machine
    after = { m with timers := after.timers, flags := after.flags } ∧
      (∀ e ∈ (m.run idle).events, e.isTone = true) ∧
      ∀ u ∈ m.walk idle, u.report.answer = u.action.operation.idleAnswer := by
  induction idle generalizing m with
  | nil =>
    exact ⟨rfl, fun _ he => absurd he List.not_mem_nil, fun _ hu => absurd hu List.not_mem_nil⟩
  | cons a rest ih =>
    obtain ⟨hanswer, hmachine, hevents⟩ := act_of_waiting h (hidle a List.mem_cons_self)
    have hstill : (m.act a).machine.isWaiting = true := by
      rw [hmachine]
      exact h
    obtain ⟨hmachine', hevents', hanswers'⟩ :=
      ih hstill fun b hb => hidle b (List.mem_cons_of_mem _ hb)
    rw [run_cons]
    refine ⟨?_, fun e he => ?_, fun u hu => ?_⟩
    · show ((m.act a).machine.run rest).machine = _
      rw [hmachine', hmachine]
      rfl
    · rcases List.mem_append.1 he with he | he
      · exact hevents e he
      · exact hevents' e he
    · rcases List.mem_cons.1 hu with rfl | hu
      · exact hanswer
      · exact hanswers' u hu

end Machine

/-! ## How often a machine waits and is resumed -/

instance (m : Machine) : Decidable m.IsActive :=
  inferInstanceAs (Decidable (_ ∧ _))

namespace Moment

/-- A step executes the instruction that waits for a key. -/
def startsWaiting (t : Moment) : Bool :=
  decide (t.action.operation = .step ∧ t.machine.IsActive) &&
    match Instruction.ofWord? t.machine.fetch with
    | some (.awaitKey _) => true
    | _ => false

/-- A key is given to a machine that waits for it. -/
def resumes (t : Moment) : Bool :=
  match t.report.answer with
  | .ok (some true) => true
  | _ => false

theorem startsWaiting_iff (t : Moment) :
    t.startsWaiting = true ↔ ∃ x, t.Executes (.awaitKey x) := by
  obtain ⟨m, s, o⟩ := t
  rw [startsWaiting, Bool.and_eq_true, decide_eq_true_eq]
  constructor
  · rintro ⟨⟨rfl, hactive⟩, hword⟩
    split at hword
    · rename_i x hx
      exact ⟨x, (executes_of_execute hactive hx rfl).1⟩
    · cases hword
  · rintro ⟨x, h⟩
    refine ⟨⟨h.step, h.active⟩, ?_⟩
    rw [h.word]

/-- An action that resumes nothing can only leave a machine waiting that waits already, or execute
the instruction. -/
theorem resumes_add_le_of_eq_false {t : Moment} (h : t.resumes = false)
    (hw : t.report.machine.isWaiting = true → t.startsWaiting = true ∨ t.machine.isWaiting = true) :
    t.resumes.toNat + t.report.machine.isWaiting.toNat ≤
      t.startsWaiting.toNat + t.machine.isWaiting.toNat := by
  rw [h]
  cases hafter : t.report.machine.isWaiting with
  | false => exact Nat.zero_le _
  | true =>
    rcases hw hafter with hstarts | hbefore
    · rw [hstarts]
      exact Nat.le_add_right 1 _
    · rw [hbefore]
      exact Nat.le_add_left 1 _

theorem resumes_eq_false_of_map {t : Moment} {r : Report Unit}
    (h : t.report = r.map fun _ => none) : t.resumes = false := by
  rw [resumes, h]
  show (match r.answer.map fun _ => none with | .ok (some true) => true | _ => false) = false
  cases r.answer <;> rfl

theorem Executes.startsWaiting {t : Moment} {i : Instruction} (h : t.Executes i)
    (hw : t.report.machine.isWaiting = true) : t.startsWaiting = true := by
  have hstatus : t.report.machine.status = t.machine.statusAfter i := by rw [h.machine_eq]
  cases i with
  | awaitKey x => exact t.startsWaiting_iff.2 ⟨x, h⟩
  | _ =>
    have hrunning : t.report.machine.status = .running := hstatus.trans h.active.2
    rw [Machine.isWaiting, hrunning] at hw
    cases hw

/-- **What a single action does to the waiting**: it begins with the execution of an instruction and
ends with a key, unless the program begins anew. -/
theorem resumes_add_isWaiting_le {t : Moment} (hs : t.action.operation.IsSingle) :
    t.resumes.toNat + t.report.machine.isWaiting.toNat ≤
      t.startsWaiting.toNat + t.machine.isWaiting.toNat := by
  obtain ⟨m, s, o⟩ := t
  cases o with
  | multistep n => exact hs.elim
  | load rom =>
    refine resumes_add_le_of_eq_false (resumes_eq_false_of_map rfl) fun hw => .inr ?_
    have hload : (m.load rom).machine.isWaiting = true := hw
    rcases Nat.lt_or_ge Region.program.size rom.length with hlt | hle
    · rwa [m.load_of_lt hlt] at hload
    · rw [m.load_of_le hle] at hload
      cases hload
  | reset =>
    refine resumes_add_le_of_eq_false (resumes_eq_false_of_map rfl) fun hw => ?_
    have hreset : m.reset.machine.isWaiting = true := hw
    cases hreset
  | step =>
    refine resumes_add_le_of_eq_false (resumes_eq_false_of_map rfl) fun hw => ?_
    rcases executes_or_unchanged m s with ⟨i, hi⟩ | ⟨hmachine, -⟩
    · exact .inl (hi.startsWaiting hw)
    · exact .inr (hmachine ▸ hw)
  | tick =>
    refine resumes_add_le_of_eq_false (resumes_eq_false_of_map rfl) fun hw => .inr ?_
    have htick : m.tick.machine.isWaiting = true := hw
    rwa [m.machine_tick] at htick
  | deliverKey key =>
    have hreport := report_deliverKey m s key
    rcases UInt8.lt_or_le 0xf key with hlt | hle
    · rw [m.deliverKey_of_lt hlt] at hreport
      refine resumes_add_le_of_eq_false (by rw [resumes, hreport]; rfl) fun hw => .inr ?_
      rwa [hreport] at hw
    · cases hstatus : m.status with
      | running =>
        rw [Machine.deliverKey_of_running hstatus hle] at hreport
        refine resumes_add_le_of_eq_false (by rw [resumes, hreport]; rfl) fun hw => .inr ?_
        rwa [hreport] at hw
      | waiting x =>
        rw [Machine.deliverKey_of_waiting hstatus hle] at hreport
        have hbefore : m.isWaiting = true := m.isWaiting_iff.2 ⟨x, hstatus⟩
        rw [resumes, hreport, hbefore]
        exact Nat.le_add_left 1 _
  | setRegister register value =>
    refine resumes_add_le_of_eq_false (resumes_eq_false_of_map rfl) fun hw => .inr ?_
    have hset : (m.setRegister register value).machine.isWaiting = true := hw
    rwa [m.machine_setRegister] at hset
  | editMemory edit =>
    refine resumes_add_le_of_eq_false (resumes_eq_false_of_map rfl) fun hw => .inr ?_
    have hedit : (m.editMemory edit).machine.isWaiting = true := hw
    rwa [m.machine_editMemory] at hedit
  | setFlags flags => exact resumes_add_le_of_eq_false rfl fun hw => .inr hw

end Moment

namespace Machine

/-- **A machine is not resumed more often than it was made to wait.** -/
theorem resumptions_le (m : Machine) (actions : List Action) :
    (m.moments actions).countP Moment.resumes + (m.run actions).machine.isWaiting.toNat ≤
      (m.moments actions).countP Moment.startsWaiting + m.isWaiting.toNat := by
  refine moments_induction
    (P := fun m moments r => moments.countP Moment.resumes + r.machine.isWaiting.toNat ≤
      moments.countP Moment.startsWaiting + m.isWaiting.toNat)
    (fun m => Nat.le_refl _) (fun {t _ r} hs hrest => ?_) m actions
  have hfirst := Moment.resumes_add_isWaiting_le hs
  rw [Moment.countP_cons, Moment.countP_cons]
  show _ + r.machine.isWaiting.toNat ≤ _
  omega

theorem report_of_executes_awaitKey {t : Moment} {x : Fin 16} (hr : t.machine.Regular)
    (h : t.Executes (.awaitKey x)) :
    t.report.machine =
        { t.machine with status := .waiting x, cycle := t.machine.cycle + 1 } ∧
      t.report.events = [] := by
  obtain ⟨m, s, o⟩ := t
  obtain rfl : o = .step := h.step
  rw [Moment.report_step, step_of_execute h.active h.word rfl]
  have hpc : Word.wrap m.pc.toNat = m.pc := Word.wrap_toNat hr.pc_lt
  refine ⟨?_, rfl⟩
  show { m with status := .waiting x, pc := Word.wrap m.pc.toNat, cycle := m.cycle + 1 } = _
  rw [hpc]

/-- **A key is awaited once.** Suppose that on a machine that a run has brought about a step
executes the instruction that waits for a key.

* It only counts, and the machine waits.
* Whatever is idle leaves the machine so, apart from timers and flags, and is answered as usual; no
  pixel is told of. The first key then puts itself into the register and lets the machine run on
  behind the instruction; nothing else has changed since before the instruction, apart from timers
  and flags, and one instruction has been counted.
* Until an instruction makes the machine wait again, it is resumed at most once, whatever is done.
* A machine that runs takes no key. -/
theorem key_awaited (flags : Flags) (actions : List Action) (s : Surroundings) {x : Fin 16}
    (h : Moment.Executes ⟨((new flags).run actions).machine, s, .step⟩ (.awaitKey x)) :
    let m := ((new flags).run actions).machine
    let t : Moment := ⟨m, s, .step⟩
    let w := t.report.machine
    (w = { m with status := .waiting x, cycle := m.cycle + 1 } ∧ t.report.events = []) ∧
    (∀ idle, (∀ a ∈ idle, a.operation.IsIdle) →
      let still := (w.run idle).machine
      still = { w with timers := still.timers, flags := still.flags } ∧
      (∀ e ∈ (w.run idle).events, e.isTone = true) ∧
      (∀ u ∈ w.walk idle, u.report.answer = u.action.operation.idleAnswer) ∧
      ∀ key ≤ 0xf, still.deliverKey key =
        { answer := .ok true
          machine :=
            { m.withRegister x key with
              status := .running
              pc := Word.wrap (m.pc.toNat + 2)
              cycle := m.cycle + 1
              timers := still.timers
              flags := still.flags } }) ∧
    (∀ later, (∀ u ∈ w.moments later, ∀ y, ¬u.Executes (.awaitKey y)) →
      (w.moments later).countP Moment.resumes ≤ 1) ∧
    ∀ (r : Machine) (key : UInt8), r.status = .running →
      (key ≤ 0xf → r.deliverKey key = { answer := .ok false, machine := r }) ∧
      (0xf < key → r.deliverKey key = .refused (.invalidKey key.toNat) r) := by
  intro m t w
  obtain ⟨hw, hevents⟩ := report_of_executes_awaitKey (regular_run flags actions) h
  have hstatus : w.status = .waiting x := congrArg Machine.status hw
  have hwaits : w.isWaiting = true := w.isWaiting_iff.2 ⟨x, hstatus⟩
  refine ⟨⟨hw, hevents⟩, fun idle hidle => ?_, fun later hlater => ?_, fun r key hrunning =>
    ⟨deliverKey_of_running hrunning, r.deliverKey_of_lt⟩⟩
  · obtain ⟨hstill, htone, hanswers⟩ := run_of_waiting hwaits hidle
    refine ⟨hstill, htone, hanswers, fun key hk => ?_⟩
    have hmachine : (w.run idle).machine =
        { m with
          status := .waiting x
          cycle := m.cycle + 1
          timers := (w.run idle).machine.timers
          flags := (w.run idle).machine.flags } :=
      hstill.trans (congrArg (fun r : Machine =>
        { r with
          timers := (w.run idle).machine.timers, flags := (w.run idle).machine.flags }) hw)
    rw [deliverKey_of_waiting (congrArg Machine.status hmachine) hk, hmachine]
    rfl
  · have hnone : (w.moments later).countP Moment.startsWaiting = 0 := by
      refine List.countP_eq_zero.2 fun u hu hstarts => ?_
      obtain ⟨y, hy⟩ := u.startsWaiting_iff.1 hstarts
      exact hlater u hu y hy
    have hle := w.resumptions_le later
    have hone : w.isWaiting.toNat = 1 := by rw [hwaits]; rfl
    omega

/-- A program that asks for a key gets it, after a pause and a key that does not exist. -/
theorem key_awaited_asking :
    let m := ((new {}).run [⟨.calm, .load [0xf3, 0x0a]⟩]).machine
    let t : Moment := ⟨m, .calm, .step⟩
    let idle : List Action :=
      [⟨.calm, .tick⟩, ⟨.calm, .deliverKey 0x10⟩, ⟨.calm, .setFlags { pause := true }⟩,
        ⟨.calm, .multistep 3⟩]
    let still := (t.report.machine.run idle).machine
    t.Executes (.awaitKey 3) ∧ (∀ a ∈ idle, a.operation.IsIdle) ∧ (0xa : UInt8) ≤ 0xf ∧
      (still.deliverKey 0xa).answer = .ok true ∧
      (still.deliverKey 0xa).machine.pc = 0x202 ∧
      (still.deliverKey 0xa).machine.register 3 = 0xa := by
  intro m t idle still
  have hrom : m.memory.HoldsOnly [0xf3, 0x0a] := Memory.holdsOnly_writeAll (by decide)
  have hfetch : m.fetch = 0xf30a := fetch_of_holdsOnly (k := 0) hrom rfl (by decide)
  have hexecutes : t.Executes (.awaitKey 3) :=
    (Moment.executes_of_execute ⟨rfl, rfl⟩ (by rw [hfetch]; rfl) rfl).1
  have hidle : ∀ a ∈ idle, a.operation.IsIdle := by
    have hno : (0xf : UInt8) < 0x10 := by decide
    simp [idle, Operation.IsIdle, hno]
  have hkey : (0xa : UInt8) ≤ 0xf := by decide
  have hpc : m.pc = 0x200 := rfl
  obtain ⟨-, hlater, -, -⟩ := key_awaited {} _ .calm hexecutes
  obtain ⟨-, -, -, hdelivered⟩ := hlater idle hidle
  have hresumed : still.deliverKey 0xa = _ := hdelivered 0xa hkey
  refine ⟨hexecutes, hidle, hkey, ?_, ?_, ?_⟩
  · rw [hresumed]
  · rw [hresumed]
    show Word.wrap (m.pc.toNat + 2) = 0x202
    rw [hpc]
    rfl
  · rw [hresumed]
    exact (m.register_withRegister 3 3 0xa).trans (if_pos rfl)

end Machine

end Chip8
