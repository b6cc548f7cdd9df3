import Chip8.Proofs.Dependence
import Chip8.Proofs.Restart
import Chip8.Proofs.Tone

/-!
# The two clocks

The instruction clock and the timer clock of a machine have nothing to do with each other, as long
as no instruction reads a timer or sets one.

* `Machine.step_withTimers`: a step that does not use the timers does the same whatever they are.
* `Machine.step_tick`: such a step may come before a tick or after it.
* `Machine.outcome_of_perm`: so the order of a whole series of pulses makes no difference, by
  exchanging neighbours.
* `Machine.clocks_independent`: two series with as many pulses of each clock.
-/

namespace Chip8

namespace Machine

/-- The machine with other timers. -/
def withTimers (m : Machine) (t : Timers) : Machine :=
  { m with timers := t }

/-- The next step executes an instruction that reads or sets a timer. -/
def UsesTimers (m : Machine) : Prop :=
  m.IsActive ∧ ∃ i, Instruction.ofWord? m.fetch = some i ∧ i.UsesTimers

theorem usesTimers_withTimers (m : Machine) (t : Timers) :
    (m.withTimers t).UsesTimers ↔ m.UsesTimers := Iff.rfl

/-! ## Steps -/

/-- An instruction that does not use the timers does the same whatever they are. -/
theorem execute_withTimers (m : Machine) (t : Timers) (keypad : Keypad) (dice : UInt8)
    {i : Instruction} (h : ¬i.UsesTimers) :
    (m.withTimers t).execute keypad dice i =
      (m.execute keypad dice i).map fun e => { e with machine := e.machine.withTimers t } := by
  have hreplaced := m.execute_replaced m.memory t keypad dice rfl fun hu => absurd hu h
  have hmemory : (m.withTimers t).memoryAfter i = m.memoryAfter i := by cases i <;> rfl
  have htimers : (m.withTimers t).timersAfter i = t := by
    cases i with
    | setDelay | setSound => exact absurd trivial h
    | _ => rfl
  refine hreplaced.trans ?_
  show (m.execute keypad dice i).map (fun e => { e with
    machine := e.machine.replaced ((m.withTimers t).memoryAfter i)
      ((m.withTimers t).timersAfter i) }) = _
  rw [hmemory, htimers]
  cases hi : m.execute keypad dice i with
  | error fault => rfl
  | ok e =>
    have hkept : e.machine.memory = m.memoryAfter i := by rw [machine_of_execute hi]
    rw [← hkept]
    rfl

/-- **A step that does not use the timers does the same whatever they are**, and leaves them
alone. -/
theorem step_withTimers (m : Machine) (t : Timers) (keypad : Keypad) (dice : UInt8)
    (h : ¬m.UsesTimers) :
    (m.withTimers t).step keypad dice =
      let r := m.step keypad dice
      ⟨r.answer, r.machine.withTimers t, r.events, r.trace⟩ := by
  by_cases ha : m.IsActive
  · have ha' : (m.withTimers t).IsActive := ha
    have hfetch : (m.withTimers t).fetch = m.fetch := rfl
    rw [step_of_isActive ha, step_of_isActive ha', hfetch]
    cases hw : Instruction.ofWord? m.fetch with
    | none => rfl
    | some i =>
      have hi : ¬i.UsesTimers := fun hi => h ⟨ha, i, hw, hi⟩
      simp only [execute_withTimers m t keypad dice hi]
      cases m.execute keypad dice i <;> rfl
  · have hidle := Classical.not_not.1 (mt m.isActive_iff.2 ha)
    have hidle' : ((m.withTimers t).flags.pause || (m.withTimers t).isWaiting) = true := hidle
    rw [step_of_idle hidle, step_of_idle hidle']
    rfl

theorem timers_step {m : Machine} (h : ¬m.UsesTimers) (keypad : Keypad) (dice : UInt8) :
    (m.step keypad dice).machine.timers = m.timers :=
  congrArg (fun r => r.machine.timers) (m.step_withTimers m.timers keypad dice h)

theorem isTone_of_mem_events_step {m : Machine} (h : ¬m.UsesTimers) (keypad : Keypad)
    (dice : UInt8) : ∀ e ∈ (m.step keypad dice).events, e.isTone = false := by
  have hc := m.stepCase keypad dice
  generalize m.step keypad dice = r at hc
  cases hc with
  | idle | unknown | failed => exact fun _ he => absurd he List.not_mem_nil
  | @executed i e ha hw hi =>
    show ∀ e' ∈ e.events, e'.isTone = false
    rw [events_of_execute hi]
    exact isTone_of_mem_eventsAfter fun x hx => h ⟨ha, i, hw, hx ▸ trivial⟩

/-! ## Ticks -/

theorem tick_congr {m m' : Machine} (hflags : m'.flags = m.flags) (htimers : m'.timers = m.timers) :
    m'.tick = ⟨.ok (), m'.withTimers m.tick.machine.timers, m.tick.events, []⟩ := by
  cases hp : m.flags.pause with
  | true =>
    rw [tick_of_pause hp, tick_of_pause (hflags ▸ hp)]
    show Report.done m' = ⟨.ok (), m'.withTimers m.timers, [], []⟩
    rw [← htimers]
    rfl
  | false =>
    rw [tick_of_not_pause hp, tick_of_not_pause (hflags ▸ hp), htimers]
    rfl

/-- **A step that does not use the timers may come before a tick or after it.** -/
theorem step_tick {m : Machine} (h : ¬m.UsesTimers) (keypad : Keypad) (dice : UInt8) :
    let r := m.step keypad dice
    r.machine.tick = ⟨.ok (), r.machine.withTimers m.tick.machine.timers, m.tick.events, []⟩ ∧
      m.tick.machine.step keypad dice =
        ⟨r.answer, r.machine.withTimers m.tick.machine.timers, r.events, r.trace⟩ := by
  have hflags : (m.step keypad dice).machine.flags = m.flags := by rw [machine_step]
  refine ⟨tick_congr hflags (timers_step h _ _), ?_⟩
  have htick : m.tick.machine = m.withTimers m.tick.machine.timers := m.machine_tick
  rw [htick]
  exact m.step_withTimers _ _ _ h

end Machine

/-! ## Series of pulses -/

/-- Whether the action of a moment is a step that executes an instruction on the timers. -/
def Moment.UsesTimers (t : Moment) : Prop :=
  ∃ i, t.Executes i ∧ i.UsesTimers

/-- An instruction on the timers always comes out well. -/
theorem Machine.exists_execute_of_usesTimers (m : Machine) (keypad : Keypad) (dice : UInt8)
    {i : Instruction} (h : i.UsesTimers) : ∃ e, m.execute keypad dice i = .ok e := by
  cases i with
  | readDelay | setDelay | setSound => exact ⟨_, rfl⟩
  | _ => exact h.elim

theorem Moment.usesTimers_iff (t : Moment) :
    t.UsesTimers ↔ t.action.operation = .step ∧ t.machine.UsesTimers := by
  constructor
  · rintro ⟨i, h, hi⟩
    exact ⟨h.step, h.active, i, h.word, hi⟩
  · obtain ⟨m, s, o⟩ := t
    rintro ⟨hstep, ha, i, hw, hi⟩
    obtain rfl : o = .step := hstep
    obtain ⟨e, he⟩ := m.exists_execute_of_usesTimers s.keypad (s.dice 0) hi
    exact ⟨i, (Moment.executes_of_execute ha hw he).1, hi⟩

/-- What somebody can tell who watches a series of actions: the machine in the end, the answers to
the steps, what was shown and what was heard, and the trace. -/
structure Outcome where
  machine : Machine
  answers : List (Except Fault (Option Bool))
  shown : List Event
  heard : List Event
  trace : List TraceLine

/-- The answers to the steps among some actions. -/
def Machine.stepAnswers (m : Machine) (actions : List Action) : List (Except Fault (Option Bool)) :=
  ((m.walk actions).filter fun t => t.action.operation = .step).map fun t => t.report.answer

/-- The outcome of some actions. -/
def Machine.outcome (m : Machine) (actions : List Action) : Outcome where
  machine := (m.run actions).machine
  answers := m.stepAnswers actions
  shown := (m.run actions).events.filter fun e => !e.isTone
  heard := (m.run actions).events.filter Event.isTone
  trace := (m.run actions).trace

theorem Machine.outcome_cons (m : Machine) (a : Action) (rest : List Action) :
    m.outcome (a :: rest) =
      let r := m.act a
      let o := r.machine.outcome rest
      ⟨o.machine, (if a.operation = .step then [r.answer] else []) ++ o.answers,
        (r.events.filter fun e => !e.isTone) ++ o.shown, r.events.filter Event.isTone ++ o.heard,
        r.trace ++ o.trace⟩ := by
  simp only [outcome, stepAnswers, run_cons, walk, List.filter_cons, History.append, Report.history,
    List.filter_append]
  split <;> simp_all [Moment.report]

/-- A pulse of one of the two clocks. -/
inductive Pulse
  | instruction
  | timer
  deriving DecidableEq

/-- What a pulse makes a machine do. -/
def Pulse.operation : Pulse → Operation
  | instruction => .step
  | timer => .tick

/-- The surroundings after a pulse: an instruction has had its byte. -/
def Surroundings.after (s : Surroundings) : Pulse → Surroundings
  | .instruction => s.drop 1
  | .timer => s

/-- The actions of a series of pulses among the same keys, each instruction with the next byte. -/
def Surroundings.pulses (s : Surroundings) : List Pulse → List Action
  | [] => []
  | p :: rest => ⟨s, p.operation⟩ :: (s.after p).pulses rest

namespace Machine

/-- A step that does not use the timers and a tick have the same outcome in either order. -/
theorem outcome_step_tick {m : Machine} (h : ¬m.UsesTimers) (s s' s'' : Surroundings)
    (rest : List Action) :
    m.outcome (⟨s, .step⟩ :: ⟨s', .tick⟩ :: rest) =
      m.outcome (⟨s'', .tick⟩ :: ⟨s, .step⟩ :: rest) := by
  obtain ⟨htick, hstep⟩ := step_tick h s.keypad (s.dice 0)
  have hsilent : (m.step s.keypad (s.dice 0)).events.filter Event.isTone = [] :=
    List.filter_eq_nil_iff.2 fun e he => Bool.eq_false_iff.1 (isTone_of_mem_events_step h _ _ e he)
  have hdark : m.tick.events.filter (fun e => !e.isTone) = [] :=
    List.filter_eq_nil_iff.2 fun e he => by simp [m.isTone_of_mem_events_tick e he]
  simp only [outcome_cons, act, perform, Report.map, htick, hstep]
  simp [hsilent, hdark, m.trace_tick]

/-- No step among some actions executes an instruction on the timers. -/
def TimerFree (m : Machine) (actions : List Action) : Prop :=
  ∀ t ∈ m.walk actions, ¬t.UsesTimers

theorem timerFree_cons {m : Machine} {a : Action} {rest : List Action} :
    m.TimerFree (a :: rest) ↔
      ¬(a.operation = .step ∧ m.UsesTimers) ∧ (m.act a).machine.TimerFree rest := by
  rw [TimerFree, walk, List.forall_mem_cons, Moment.usesTimers_iff]
  rfl

theorem not_usesTimers_of_timerFree {m : Machine} {s : Surroundings} {rest : List Action}
    (h : m.TimerFree (⟨s, .step⟩ :: rest)) : ¬m.UsesTimers :=
  fun hu => (timerFree_cons.1 h).1 ⟨rfl, hu⟩

theorem usesTimers_tick (m : Machine) : m.tick.machine.UsesTimers ↔ m.UsesTimers := by
  rw [machine_tick]
  exact m.usesTimers_withTimers _

/-- Whether steps use the timers does not depend on whether a tick comes before the first of them or
after it. -/
theorem timerFree_step_tick {m : Machine} {s s' s'' : Surroundings} {rest : List Action} :
    m.TimerFree (⟨s, .step⟩ :: ⟨s', .tick⟩ :: rest) ↔
      m.TimerFree (⟨s'', .tick⟩ :: ⟨s, .step⟩ :: rest) := by
  have hleft : m.TimerFree (⟨s, .step⟩ :: ⟨s', .tick⟩ :: rest) ↔
      ¬m.UsesTimers ∧ (m.step s.keypad (s.dice 0)).machine.tick.machine.TimerFree rest := by
    simp [timerFree_cons, act, perform, Report.map]
  have hright : m.TimerFree (⟨s'', .tick⟩ :: ⟨s, .step⟩ :: rest) ↔
      ¬m.UsesTimers ∧ (m.tick.machine.step s.keypad (s.dice 0)).machine.TimerFree rest := by
    simp [timerFree_cons, act, perform, Report.map, usesTimers_tick]
  rw [hleft, hright]
  refine and_congr_right fun h => ?_
  obtain ⟨htick, hstep⟩ := step_tick h s.keypad (s.dice 0)
  rw [htick, hstep]

/-- **The order of the pulses makes no difference**, as long as no instruction uses the timers. The
induction is on the exchanges of neighbouring pulses that lead from one order to the other. -/
theorem outcome_of_perm {ps qs : List Pulse} (h : ps.Perm qs) (m : Machine) (s : Surroundings)
    (hfree : m.TimerFree (s.pulses ps)) :
    m.TimerFree (s.pulses qs) ∧ m.outcome (s.pulses ps) = m.outcome (s.pulses qs) := by
  induction h generalizing m s with
  | nil => exact ⟨hfree, rfl⟩
  | cons p _ ih =>
    obtain ⟨hfirst, hrest⟩ := timerFree_cons.1 hfree
    obtain ⟨hfree', heq⟩ := ih _ _ hrest
    refine ⟨timerFree_cons.2 ⟨hfirst, hfree'⟩, ?_⟩
    simp only [Surroundings.pulses, outcome_cons, heq]
  | swap p q rest =>
    cases p with
    | instruction =>
      cases q with
      | instruction => exact ⟨hfree, rfl⟩
      | timer =>
        have hfree' : m.TimerFree (⟨s, .step⟩ :: ⟨s.drop 1, .tick⟩ :: (s.drop 1).pulses rest) :=
          timerFree_step_tick.2 hfree
        exact ⟨hfree', (outcome_step_tick (not_usesTimers_of_timerFree hfree') _ _ _ _).symm⟩
    | timer =>
      cases q with
      | instruction =>
        exact ⟨timerFree_step_tick.1 hfree,
          outcome_step_tick (not_usesTimers_of_timerFree hfree) _ _ _ _⟩
      | timer => exact ⟨hfree, rfl⟩
  | trans _ _ ih ih' =>
    obtain ⟨hfree', heq⟩ := ih m s hfree
    obtain ⟨hfree'', heq'⟩ := ih' m s hfree'
    exact ⟨hfree'', heq.trans heq'⟩

/-- **The two clocks are independent.** Let the pulses of the two clocks come in two orders, as many
of each in one as in the other, among the same keys and with the same bytes of the dice. If in one
order no step executes an instruction that reads or sets a timer, then none does in the other, and
both lead to the same machine, with the same answers to the steps, the same pixels and the same tone
told, and the same trace. -/
theorem clocks_independent (m : Machine) (s : Surroundings) {ps qs : List Pulse}
    (hinstruction : ps.count .instruction = qs.count .instruction)
    (htimer : ps.count .timer = qs.count .timer)
    (hfree : ∀ t ∈ m.walk (s.pulses ps), ¬t.UsesTimers) :
    (∀ t ∈ m.walk (s.pulses qs), ¬t.UsesTimers) ∧
      (m.run (s.pulses ps)).machine = (m.run (s.pulses qs)).machine ∧
      m.stepAnswers (s.pulses ps) = m.stepAnswers (s.pulses qs) ∧
      (m.run (s.pulses ps)).events.filter (fun e => !e.isTone) =
        (m.run (s.pulses qs)).events.filter (fun e => !e.isTone) ∧
      (m.run (s.pulses ps)).events.filter Event.isTone =
        (m.run (s.pulses qs)).events.filter Event.isTone ∧
      (m.run (s.pulses ps)).trace = (m.run (s.pulses qs)).trace := by
  have hperm : ps.Perm qs := List.perm_iff_count.2 fun p => by
    cases p with
    | instruction => exact hinstruction
    | timer => exact htimer
  obtain ⟨hfree', heq⟩ := outcome_of_perm hperm m s hfree
  obtain ⟨hmachine, hanswers, hshown, hheard, htrace⟩ := Outcome.mk.inj heq
  exact ⟨hfree', hmachine, hanswers, hshown, hheard, htrace⟩

/-- A machine whose program puts a number into a register while the tone is in its last moment. -/
def sounding : Machine :=
  { ((new {}).load [0x60, 0x05]).machine with timers := ⟨0, 1⟩ }

/-- Whether the tone of `sounding` stops after the instruction or before it makes no difference. -/
theorem clocks_independent_sounding :
    let late : List Pulse := [.instruction, .timer]
    let early : List Pulse := [.timer, .instruction]
    late.count .instruction = early.count .instruction ∧ late.count .timer = early.count .timer ∧
      (∀ t ∈ sounding.walk (Surroundings.calm.pulses late), ¬t.UsesTimers) ∧
      (sounding.run (Surroundings.calm.pulses late)).machine =
        (sounding.run (Surroundings.calm.pulses early)).machine ∧
      (sounding.run (Surroundings.calm.pulses late)).events.filter Event.isTone =
        (sounding.run (Surroundings.calm.pulses early)).events.filter Event.isTone := by
  intro late early
  have hrom : sounding.memory.HoldsOnly [0x60, 0x05] := Memory.holdsOnly_writeAll (by decide)
  have hfetch : sounding.fetch = 0x6005 := fetch_of_holdsOnly (k := 0) hrom rfl (by decide)
  have hset : Instruction.ofWord? sounding.fetch = some (.setByte 0 5) := by
    rw [hfetch]
    rfl
  have hnot : ¬sounding.UsesTimers := by
    rintro ⟨-, i, hi, hu⟩
    obtain rfl := Option.some.inj (hset.symm.trans hi)
    exact hu
  have hfree : sounding.TimerFree (Surroundings.calm.pulses late) :=
    timerFree_cons.2 ⟨fun h => hnot h.2, timerFree_cons.2
      ⟨fun h => Operation.noConfusion h.1, fun _ h => absurd h List.not_mem_nil⟩⟩
  have hcounts : late.count .instruction = early.count .instruction ∧
      late.count .timer = early.count .timer := ⟨rfl, rfl⟩
  obtain ⟨-, hmachine, -, -, hheard, -⟩ :=
    clocks_independent sounding Surroundings.calm hcounts.1 hcounts.2 hfree
  exact ⟨hcounts.1, hcounts.2, hfree, hmachine, hheard⟩

end Machine

end Chip8
