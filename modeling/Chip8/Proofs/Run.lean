import Chip8.Machine.Operation

/-!
# Runs

A host does one operation after another with a machine, each among surroundings of its own. This
module says what such a run is and takes it apart into single operations, so that nothing inside of
several steps escapes a statement about every moment.

* `Machine.run` is the machine after some actions, with all that it told on the way; `run_append`
  is its law.
* `Machine.multistep_succ` is the law of several steps and a tick, and `Machine.singles` writes them
  out one by one: `run_singles` says that this makes no difference, and `multistep_induction` is the
  induction on them.
* `Machine.moments` lists the machines that a run passes through, each with the single action that
  is done with it; `Machine.moments_induction` is the induction on them.
-/

namespace Chip8

/-! ## Actions and histories -/

/-- Whether an operation is a single one, and not several steps and a tick. -/
def Operation.IsSingle : Operation → Prop
  | .multistep _ => False
  | _ => True

/-- An operation, with what surrounds the machine while it is done. -/
structure Action where
  surroundings : Surroundings
  operation : Operation

/-- Surroundings in which no key is pressed and every byte drawn is zero. -/
def Surroundings.calm : Surroundings :=
  ⟨Keypad.idle, fun _ => 0⟩

/-- Some steps, each with its own byte of the dice. -/
def Surroundings.steps (s : Surroundings) (k : Nat) : List Action :=
  (List.range k).map fun j => ⟨s.drop j, .step⟩

theorem Surroundings.steps_succ (s : Surroundings) (k : Nat) :
    s.steps (k + 1) = ⟨s, .step⟩ :: (s.drop 1).steps k := by
  have hdrop : ∀ j, s.drop (j + 1) = (s.drop 1).drop j := by
    intro j
    simp only [drop, Surroundings.mk.injEq, true_and]
    funext i
    congr 1
    omega
  have hzero : s.drop 0 = s := by
    simp [drop]
  simp only [steps, List.range_succ_eq_map, List.map_cons, List.map_map, hzero]
  congr 1
  exact List.map_congr_left fun j _ => by rw [Function.comp_apply, hdrop]

/-- A machine and the action that is done with it. -/
structure Moment where
  machine : Machine
  action : Action

/-- The machine after some actions, with all that it told on the way. -/
structure History where
  machine : Machine
  events : List Event := []
  trace : List TraceLine := []

/-- What a report leaves, apart from the answer. -/
def Report.history {α : Type} (r : Report α) : History :=
  ⟨r.machine, r.events, r.trace⟩

/-- A history, and another one that begins where it ends. -/
def History.append (h h' : History) : History :=
  ⟨h'.machine, h.events ++ h'.events, h.trace ++ h'.trace⟩

theorem History.append_assoc (h h' h'' : History) :
    (h.append h').append h'' = h.append (h'.append h'') := by
  simp [append]

namespace Machine

/-- Do an action. -/
def act (m : Machine) (a : Action) : Report (Option Bool) :=
  m.perform a.surroundings a.operation

/-- Do some actions, one after another, whatever their answers are. -/
def run (m : Machine) : List Action → History
  | [] => { machine := m }
  | a :: rest => (m.act a).history.append ((m.act a).machine.run rest)

@[simp]
theorem run_nil (m : Machine) : m.run [] = { machine := m } := rfl

theorem run_cons (m : Machine) (a : Action) (rest : List Action) :
    m.run (a :: rest) = (m.act a).history.append ((m.act a).machine.run rest) := rfl

/-- **Actions after others begin where those end.** -/
theorem run_append (m : Machine) (as bs : List Action) :
    m.run (as ++ bs) = (m.run as).append ((m.run as).machine.run bs) := by
  induction as generalizing m with
  | nil => simp [History.append]
  | cons a as ih =>
    rw [List.cons_append, run_cons, run_cons, ih, History.append_assoc]
    rfl

theorem run_singleton (m : Machine) (a : Action) : m.run [a] = (m.act a).history := by
  simp [run_cons, History.append, Report.history]

/-! ## Several steps, one by one -/

theorem trace_tick (m : Machine) : m.tick.trace = [] := by
  unfold tick
  split <;> rfl

@[simp]
theorem multistep_zero (m : Machine) (s : Surroundings) : m.multistep s 0 = m.tick := by
  rw [multistep, steps_zero]
  show { m.tick with events := [] ++ m.tick.events, trace := [] } = m.tick
  rw [List.nil_append, ← m.trace_tick]

/-- **Several steps and a tick are a step, and then the others and the tick**, unless that step
fails. -/
theorem multistep_succ (m : Machine) (s : Surroundings) (n : Nat) :
    m.multistep s (n + 1) =
      let r := m.step s.keypad (s.dice 0)
      match r.answer with
      | .error _ => r
      | .ok () =>
        let rest := r.machine.multistep (s.drop 1) n
        { rest with events := r.events ++ rest.events, trace := r.trace ++ rest.trace } := by
  rw [multistep, steps_succ]
  generalize m.step s.keypad (s.dice 0) = r
  obtain ⟨answer, machine, events, trace⟩ := r
  cases answer with
  | error fault => rfl
  | ok =>
    simp only [multistep]
    generalize machine.steps (s.drop 1) n = rest
    obtain ⟨answer', machine', events', trace'⟩ := rest
    cases answer' with
    | error fault => rfl
    | ok => simp

/-- Several steps and a tick, one by one. A fault is the end. -/
def stepSingles (m : Machine) (s : Surroundings) : Nat → List Action
  | 0 => [⟨s, .tick⟩]
  | n + 1 =>
    let r := m.step s.keypad (s.dice 0)
    ⟨s, .step⟩ ::
      match r.answer with
      | .error _ => []
      | .ok () => r.machine.stepSingles (s.drop 1) n

/-- The single actions of which an action consists. -/
def singlesOf (m : Machine) : Action → List Action
  | ⟨s, .multistep n⟩ => m.stepSingles s n
  | a => [a]

/-- The single actions of which some actions consist. -/
def singles (m : Machine) : List Action → List Action
  | [] => []
  | a :: rest => m.singlesOf a ++ (m.act a).machine.singles rest

theorem run_stepSingles (m : Machine) (s : Surroundings) (n : Nat) :
    m.run (m.stepSingles s n) = (m.multistep s n).history := by
  induction n generalizing m s with
  | zero =>
    rw [stepSingles, run_singleton, multistep_zero]
    rfl
  | succ n ih =>
    rw [stepSingles, run_cons, multistep_succ]
    have hact : m.act ⟨s, .step⟩ = (m.step s.keypad (s.dice 0)).map fun _ => none := rfl
    rw [hact]
    generalize m.step s.keypad (s.dice 0) = r
    obtain ⟨answer, machine, events, trace⟩ := r
    cases answer with
    | error fault => simp [History.append, Report.history, Report.map]
    | ok => simp only [Report.map, ih, Report.history, History.append]

theorem run_singlesOf (m : Machine) (a : Action) : m.run (m.singlesOf a) = (m.act a).history := by
  obtain ⟨s, o⟩ := a
  cases o with
  | multistep n => exact m.run_stepSingles s n
  | _ => exact m.run_singleton _

/-- **A run is the run of its single actions.** -/
theorem run_singles (m : Machine) (actions : List Action) :
    m.run (m.singles actions) = m.run actions := by
  induction actions generalizing m with
  | nil => rfl
  | cons a rest ih =>
    rw [singles, run_append, run_singlesOf, run_cons]
    show (m.act a).history.append ((m.act a).machine.run _) = _
    rw [ih]

theorem mem_stepSingles {m : Machine} {s : Surroundings} {n : Nat} {b : Action}
    (h : b ∈ m.stepSingles s n) : b.operation = .step ∨ b.operation = .tick := by
  induction n generalizing m s with
  | zero =>
    obtain rfl := List.mem_singleton.1 h
    exact .inr rfl
  | succ n ih =>
    rw [stepSingles] at h
    rcases List.mem_cons.1 h with rfl | h
    · exact .inl rfl
    · split at h
      · exact absurd h List.not_mem_nil
      · exact ih h

/-- The single actions of which some actions consist are steps, ticks, and those among them that
are single already. -/
theorem mem_singles {m : Machine} {actions : List Action} {b : Action}
    (h : b ∈ m.singles actions) :
    b.operation = .step ∨ b.operation = .tick ∨ b ∈ actions ∧ b.operation.IsSingle := by
  induction actions generalizing m with
  | nil => exact absurd h List.not_mem_nil
  | cons a rest ih =>
    rcases List.mem_append.1 h with h | h
    · obtain ⟨s, o⟩ := a
      cases o with
      | multistep n => exact (mem_stepSingles h).imp_right .inl
      | _ =>
        obtain rfl := List.mem_singleton.1 h
        exact .inr (.inr ⟨List.mem_cons_self, trivial⟩)
    · rcases ih h with h | h | ⟨h, hb⟩
      · exact .inl h
      · exact .inr (.inl h)
      · exact .inr (.inr ⟨List.mem_cons_of_mem _ h, hb⟩)

theorem isSingle_of_mem_singles {m : Machine} {actions : List Action} {b : Action}
    (h : b ∈ m.singles actions) : b.operation.IsSingle := by
  rcases mem_singles h with h | h | h
  · rw [h]
    trivial
  · rw [h]
    trivial
  · exact h.2

/-- What holds of some operations, and of steps and ticks, holds of the single ones of which they
consist. -/
theorem forall_mem_singles {P : Operation → Prop} (step : P .step) (tick : P .tick) {m : Machine}
    {actions : List Action} (h : ∀ a ∈ actions, P a.operation) :
    ∀ a ∈ m.singles actions, P a.operation := by
  intro a ha
  rcases mem_singles ha with hstep | htick | hmem
  · rw [hstep]
    exact step
  · rw [htick]
    exact tick
  · exact h a hmem.1

/-! ## Moments -/

/-- The machines before the actions of a list, each with its action. -/
def walk (m : Machine) : List Action → List Moment
  | [] => []
  | a :: rest => ⟨m, a⟩ :: (m.act a).machine.walk rest

/-- The moments of a run, one for each single action: those inside of several steps are among
them. -/
def moments (m : Machine) (actions : List Action) : List Moment :=
  m.walk (m.singles actions)

theorem walk_append (m : Machine) (as bs : List Action) :
    m.walk (as ++ bs) = m.walk as ++ (m.run as).machine.walk bs := by
  induction as generalizing m with
  | nil => rfl
  | cons a as ih =>
    rw [List.cons_append, walk, ih, walk, List.cons_append]
    rfl

/-- **Several steps are made of single ones.** What is true of the tick at the end and of a step
that fails, and stays true when a step that comes out well comes before others, is true of several
steps, of the moments that they pass through and of their report. -/
theorem multistep_induction {P : Machine → Nat → List Moment → Report Unit → Prop}
    (tick : ∀ m s, P m 0 [⟨m, s, .tick⟩] m.tick)
    (failed : ∀ {m : Machine} {s : Surroundings} {fault : Fault} (n : Nat),
      (m.step s.keypad (s.dice 0)).answer = .error fault →
      P m (n + 1) [⟨m, s, .step⟩] (m.step s.keypad (s.dice 0)))
    (stepped : ∀ {m : Machine} {s : Surroundings} {n : Nat},
      let r := m.step s.keypad (s.dice 0)
      let later := r.machine.walk (r.machine.stepSingles (s.drop 1) n)
      let rest := r.machine.multistep (s.drop 1) n
      r.answer = .ok () → P r.machine n later rest →
      P m (n + 1) (⟨m, s, .step⟩ :: later)
        { rest with events := r.events ++ rest.events, trace := r.trace ++ rest.trace })
    (m : Machine) (s : Surroundings) (n : Nat) :
    P m n (m.walk (m.stepSingles s n)) (m.multistep s n) := by
  induction n generalizing m s with
  | zero =>
    rw [multistep_zero]
    exact tick m s
  | succ n ih =>
    rw [stepSingles, walk, multistep_succ]
    cases hr : (m.step s.keypad (s.dice 0)).answer with
    | error fault =>
      simp only [hr]
      exact failed n hr
    | ok =>
      simp only [hr]
      exact stepped hr (ih _ _)

/-- The moments of a run are those inside of the first action, and then those of the others. -/
theorem moments_cons (m : Machine) (a : Action) (rest : List Action) :
    m.moments (a :: rest) = m.walk (m.singlesOf a) ++ (m.act a).machine.moments rest := by
  rw [moments, singles, walk_append, run_singlesOf]
  rfl

theorem moments_append (m : Machine) (as bs : List Action) :
    m.moments (as ++ bs) = m.moments as ++ (m.run as).machine.moments bs := by
  induction as generalizing m with
  | nil => rfl
  | cons a as ih =>
    rw [List.cons_append, moments_cons, ih, moments_cons, List.append_assoc]
    rfl

/-- What every action of a list keeps is true of all the machines on the way. -/
theorem forall_mem_walk {P : Machine → Prop} {as : List Action} {m : Machine} (start : P m)
    (next : ∀ m, ∀ a ∈ as, P m → P (m.act a).machine) :
    ∀ t ∈ m.walk as, P t.machine ∧ t.action ∈ as := by
  induction as generalizing m with
  | nil => exact fun t ht => absurd ht List.not_mem_nil
  | cons a rest ih =>
    intro t ht
    rcases List.mem_cons.1 ht with rfl | ht
    · exact ⟨start, List.mem_cons_self⟩
    · have hrest := ih (next m a List.mem_cons_self start)
        (fun m b hb => next m b (List.mem_cons_of_mem _ hb)) t ht
      exact ⟨hrest.1, List.mem_cons_of_mem _ hrest.2⟩

/-- What holds of some operations, and of steps and ticks, holds of them at every moment. -/
theorem forall_mem_moments {P : Operation → Prop} (step : P .step) (tick : P .tick) {m : Machine}
    {actions : List Action} (h : ∀ a ∈ actions, P a.operation) :
    ∀ t ∈ m.moments actions, P t.action.operation := by
  intro t ht
  have hmem := forall_mem_walk (P := fun _ => True) trivial (fun _ _ _ _ => trivial) t ht
  exact forall_mem_singles step tick h t.action hmem.2

end Machine

/-- What the action of a moment leaves. -/
def Moment.report (t : Moment) : Report (Option Bool) :=
  t.machine.act t.action

section

variable (m : Machine) (s : Surroundings)

theorem Moment.report_step :
    report ⟨m, s, .step⟩ = (m.step s.keypad (s.dice 0)).map fun _ => none := rfl

theorem Moment.report_tick : report ⟨m, s, .tick⟩ = m.tick.map fun _ => none := rfl

theorem Moment.report_load (rom : List UInt8) :
    report ⟨m, s, .load rom⟩ = (m.load rom).map fun _ => none := rfl

theorem Moment.report_deliverKey (key : UInt8) :
    report ⟨m, s, .deliverKey key⟩ = (m.deliverKey key).map some := rfl

end

/-- What the actions of a list leave one after another: a report for each of them. -/
def Machine.reports (m : Machine) (actions : List Action) : List (Report (Option Bool)) :=
  (m.walk actions).map Moment.report

theorem Moment.countP_cons (p : Moment → Bool) (t : Moment) (later : List Moment) :
    (t :: later).countP p = (p t).toNat + later.countP p := by
  rw [List.countP_cons, Nat.add_comm]
  cases p t <;> rfl

/-- **A run is made of single actions.** What is true of no action at all, and stays true when a
single action comes before others, is true of every run and of the moments that it passes
through. -/
theorem Machine.moments_induction {P : Machine → List Moment → History → Prop}
    (nil : ∀ m, P m [] { machine := m })
    (cons : ∀ {t : Moment} {later : List Moment} {h : History}, t.action.operation.IsSingle →
      P t.report.machine later h → P t.machine (t :: later) (t.report.history.append h))
    (m : Machine) (actions : List Action) : P m (m.moments actions) (m.run actions) := by
  have key : ∀ (as : List Action) (m : Machine), (∀ a ∈ as, a.operation.IsSingle) →
      P m (m.walk as) (m.run as) := by
    intro as
    induction as with
    | nil => exact fun m _ => nil m
    | cons a as ih =>
      intro m hs
      have hrest := ih (m.act a).machine fun b hb => hs b (List.mem_cons_of_mem _ hb)
      exact cons (t := ⟨m, a⟩) (hs a List.mem_cons_self) hrest
  rw [← run_singles]
  exact key _ m fun a ha => isSingle_of_mem_singles ha

end Chip8
