import Chip8.Proofs.Assembler
import Chip8.Proofs.FatalReport
import Chip8.Proofs.KeyWait
import Mathlib.Data.List.DropRight

/-!
# The trace as a history

With the debug flag a machine writes a line for each instruction that it takes up: the number of
instructions before it, its address and its disassembly. The line is written before anything else
happens, so it shows the machine as the instruction finds it, whatever comes of that.

* `TraceLine.visible_text` is what a terminal shows of a line.
* `Moment.trace_report` says what a single action writes and `Machine.trace_run` what a run does.
* `Moment.cycle_report` says how a single action counts, and `Machine.cycle_run` that a machine
  counts the instructions since it began anew.
* `Machine.trace_of_waiting` and `Machine.Stuck.trace_run` are about machines that get no further.
* `Machine.trace_history` puts these together.
-/

namespace Chip8

open Text

/-- Whether an operation leaves the trace on. -/
def Operation.KeepsDebug : Operation → Prop
  | .setFlags flags => flags.debug = true
  | _ => True

/-- Whether an operation leaves a machine waiting that waits for a key: it is no key that exists,
and does not begin anew. -/
def Operation.LeavesWaiting : Operation → Prop
  | .load rom => Region.program.size < rom.length
  | .reset => False
  | .deliverKey key => 0xf < key
  | _ => True

/-- The line of the trace that belongs to the next instruction. -/
def Machine.line (m : Machine) : TraceLine :=
  ⟨m.cycle, m.pc, m.fetch⟩

/-- A terminal shows of a line the count, the address and the disassembly without its colours. -/
theorem TraceLine.visible_text (l : TraceLine) :
    ∃ blanks, visible l.text =
      column 3 l.cycle ++ " " ++ hex 3 l.pc.toNat ++ ": " ++ disassembleBare l.word ++
        String.ofList (List.replicate blanks ' ') ++ "\n" := by
  obtain ⟨blanks, htext⟩ := l.text_eq_shown
  have hcount := (shows_column 3 l.cycle).tint .brightBlack
  have hblank : Shows " " " " := Shows.refl (by decide)
  have hcolon : Shows ": " ": " := Shows.refl (by decide)
  have hword := shows_disassemble .standard l.word
  have hblanks : '\x1b' ∉ (String.ofList (List.replicate blanks ' ')).toList := by simp
  have hend : Shows "\n" "\n" := Shows.refl (by decide)
  have hnamed := ((shows_hex 3 l.pc.toNat).append hcolon).append hword
  have hline := (((hcount.append hblank).append hnamed).append (.refl hblanks)).append hend
  refine ⟨blanks, (congrArg visible htext).trans (hline.visible_eq.trans ?_)⟩
  simp only [String.append_assoc]

theorem Machine.trace_act_of_ne_step (m : Machine) {a : Action} (hs : a.operation.IsSingle)
    (h : a.operation ≠ .step) : (m.act a).trace = [] := by
  obtain ⟨s, o⟩ := a
  cases o with
  | step => exact absurd rfl h
  | multistep n => exact hs.elim
  | load rom =>
    show (m.load rom).trace = []
    unfold load
    split <;> rfl
  | tick => exact m.trace_tick
  | deliverKey key =>
    show (m.deliverKey key).trace = []
    unfold deliverKey
    split
    · rfl
    · split <;> rfl
  | setRegister register value =>
    show (m.setRegister register value).trace = []
    unfold setRegister
    split <;> rfl
  | editMemory edit =>
    show (m.editMemory edit).trace = []
    unfold editMemory
    split <;> rfl
  | reset | setFlags flags => rfl

namespace Moment

/-- A machine takes up an instruction: it is to make a step, and neither stands still nor waits. -/
def attempts (t : Moment) : Bool :=
  t.action.operation = .step ∧ t.machine.IsActive

/-- A machine begins anew: it is reset, or a program is accepted. -/
def restarts (t : Moment) : Bool :=
  match t.action.operation with
  | .load _ => t.report.answer.isOk
  | .reset => true
  | _ => false

theorem executes_eq (t : Moment) : t.executes = (t.attempts && t.report.answer.isOk) := by
  have hactive : decide t.machine.IsActive = !(t.machine.flags.pause || t.machine.isWaiting) := by
    rw [Bool.eq_iff_iff, decide_eq_true_iff, Machine.isActive_iff, Bool.not_eq_true',
      Bool.not_eq_true]
  rw [executes, attempts, Bool.decide_and, hactive]

/-! ## Lines -/

/-- **A line for each instruction that is taken up**, and none for anything else. -/
theorem trace_report {t : Moment} (hs : t.action.operation.IsSingle)
    (hdebug : t.machine.flags.debug = true) :
    t.report.trace = if t.attempts then [t.machine.line] else [] := by
  obtain ⟨m, s, o⟩ := t
  by_cases hstep : o = .step
  · subst hstep
    show (m.step s.keypad (s.dice 0)).trace = _
    by_cases hactive : m.IsActive
    · have hattempts : attempts ⟨m, s, .step⟩ = true := decide_eq_true ⟨rfl, hactive⟩
      rw [m.trace_step hactive, if_pos hattempts, Machine.nextLine, if_pos hdebug]
      rfl
    · have hattempts : ¬attempts ⟨m, s, .step⟩ = true := fun h => hactive (of_decide_eq_true h).2
      rw [Machine.step_of_idle (Classical.not_not.1 (mt m.isActive_iff.2 hactive)),
        if_neg hattempts]
      rfl
  · have hattempts : ¬attempts ⟨m, s, o⟩ = true := fun h => hstep (of_decide_eq_true h).1
    rw [if_neg hattempts]
    exact m.trace_act_of_ne_step hs hstep

/-! ## Counting -/

/-- **How a single action counts**: from zero where the machine begins anew, and else one for an
instruction that is executed. -/
theorem cycle_report {t : Moment} (hs : t.action.operation.IsSingle) :
    t.report.machine.cycle =
      if t.restarts then 0 else t.machine.cycle + t.executes.toNat := by
  obtain ⟨m, s, o⟩ := t
  cases o with
  | multistep n => exact hs.elim
  | load rom =>
    have hreport := report_load m s rom
    rw [restarts, hreport]
    rcases Nat.lt_or_ge Region.program.size rom.length with hlt | hle
    · rw [m.load_of_lt hlt]
      rfl
    · rw [m.load_of_le hle]
      rfl
  | step =>
    show _ = m.cycle + (executes ⟨m, s, .step⟩).toNat
    cases h : executes ⟨m, s, .step⟩ with
    | true =>
      obtain ⟨i, hi⟩ := (executes_iff _).1 h
      rw [hi.machine_eq]
      rfl
    | false =>
      rcases executes_or_unchanged m s with hi | ⟨hmachine, -⟩
      · rw [(executes_iff _).2 hi] at h
        cases h
      · rw [hmachine]
        rfl
  | tick =>
    show m.tick.machine.cycle = m.cycle
    rw [m.machine_tick]
  | deliverKey key =>
    show (m.deliverKey key).machine.cycle = m.cycle
    rw [m.machine_deliverKey]
  | setRegister register value =>
    show (m.setRegister register value).machine.cycle = m.cycle
    rw [m.machine_setRegister]
  | editMemory edit =>
    show (m.editMemory edit).machine.cycle = m.cycle
    rw [m.machine_editMemory]
  | reset | setFlags flags => rfl

end Moment

/-- The moments since the machine began anew for the last time. -/
def sinceRestart (ts : List Moment) : List Moment :=
  ts.rtakeWhile fun t => !t.restarts

namespace Machine

/-! ## Runs -/

theorem debug_act {m : Machine} (h : m.flags.debug = true) {a : Action}
    (hs : a.operation.IsSingle) (hkeeps : a.operation.KeepsDebug) :
    (m.act a).machine.flags.debug = true := by
  by_cases hflags : ∃ flags, a.operation = .setFlags flags
  · obtain ⟨s, o⟩ := a
    obtain ⟨flags, rfl⟩ := hflags
    exact hkeeps
  · rw [m.flags_act hs (not_exists.1 hflags)]
    exact h

/-- **The trace of a run** has a line for each instruction that is taken up, in order, as long as
the host leaves it on. -/
theorem trace_run {m : Machine} (h : m.flags.debug = true) {actions : List Action}
    (hkeeps : ∀ a ∈ actions, a.operation.KeepsDebug) :
    (m.run actions).machine.flags.debug = true ∧
      (m.run actions).trace =
        ((m.moments actions).filter Moment.attempts).map fun t => t.machine.line := by
  have hmoments : ∀ t ∈ m.moments actions, t.action.operation.KeepsDebug :=
    forall_mem_moments trivial trivial hkeeps
  revert h hmoments
  refine moments_induction
    (P := fun m ts r => m.flags.debug = true → (∀ t ∈ ts, t.action.operation.KeepsDebug) →
      r.machine.flags.debug = true ∧
        r.trace = (ts.filter Moment.attempts).map fun t => t.machine.line)
    (fun m h _ => ⟨h, rfl⟩) (fun {t ts r} hs ih h hts => ?_) m actions
  obtain ⟨hdebug, htrace⟩ := ih (debug_act h hs (hts t List.mem_cons_self))
    fun u hu => hts u (List.mem_cons_of_mem _ hu)
  refine ⟨hdebug, ?_⟩
  show t.report.trace ++ r.trace = _
  rw [t.trace_report hs h, htrace, List.filter_cons]
  split <;> rfl

/-- **A machine counts the instructions since it began anew.** The induction is on the end of the
list, where the counting may have begun. -/
theorem cycle_run {m : Machine} (h : m.cycle = 0) {as : List Action}
    (hs : ∀ a ∈ as, a.operation.IsSingle) :
    (m.run as).machine.cycle = (sinceRestart (m.walk as)).countP Moment.executes := by
  induction as using List.reverseRecOn with
  | nil => exact h
  | append_singleton as a ih =>
    have hbefore := ih fun b hb => hs b (List.mem_append_left _ hb)
    have hlast := Moment.cycle_report (t := ⟨(m.run as).machine, a⟩)
      (hs a (List.mem_append_right _ List.mem_cons_self))
    rw [run_append, run_singleton, walk_append]
    show (Moment.report ⟨(m.run as).machine, a⟩).machine.cycle =
      (sinceRestart (m.walk as ++ [⟨(m.run as).machine, a⟩])).countP Moment.executes
    rw [hlast, sinceRestart, List.rtakeWhile_concat]
    cases Moment.restarts ⟨(m.run as).machine, a⟩ with
    | true => rfl
    | false =>
      have hsingleton := Moment.countP_cons Moment.executes ⟨(m.run as).machine, a⟩ []
      rw [if_neg Bool.false_ne_true, hbefore, Bool.not_false, if_pos rfl, List.countP_append,
        hsingleton]
      rfl

theorem eq_walk_of_walk_eq {m : Machine} {as : List Action} {before later : List Moment}
    (h : m.walk as = before ++ later) : before = m.walk (before.map Moment.action) := by
  induction before generalizing m as with
  | nil => rfl
  | cons t before ih =>
    cases as with
    | nil => cases h
    | cons a as =>
      obtain ⟨rfl, hrest⟩ := List.cons.inj h
      exact congrArg (_ :: ·) (ih hrest)

theorem cycle_of_moments_eq {m : Machine} (h : m.cycle = 0) {actions : List Action}
    {before later : List Moment} {t : Moment} (ht : m.moments actions = before ++ t :: later) :
    t.machine.cycle = (sinceRestart before).countP Moment.executes := by
  have hsingle : ∀ a ∈ before.map Moment.action, a.operation.IsSingle := by
    intro a ha
    obtain ⟨u, hu, rfl⟩ := List.mem_map.1 ha
    have hmem : u ∈ m.moments actions := ht ▸ List.mem_append_left _ hu
    have hwalk := forall_mem_walk (P := fun _ => True) trivial (fun _ _ _ _ => trivial) u hmem
    exact isSingle_of_mem_singles hwalk.2
  have hbefore := eq_walk_of_walk_eq ht
  rw [← machine_run_of_walk_eq ht, cycle_run h hsingle, ← hbefore]

theorem cycles_consecutive {m : Machine} {actions : List Action}
    (hrestarts : ∀ t ∈ m.moments actions, t.restarts = false)
    (hok : ∀ t ∈ m.moments actions, t.action.operation = .step → t.report.answer.isOk = true) :
    ((m.moments actions).filter Moment.attempts).map (fun t => t.machine.cycle) =
      List.range' m.cycle ((m.moments actions).countP Moment.attempts) := by
  revert hrestarts hok
  refine moments_induction
    (P := fun m ts _ => (∀ t ∈ ts, t.restarts = false) →
      (∀ t ∈ ts, t.action.operation = .step → t.report.answer.isOk = true) →
      (ts.filter Moment.attempts).map (fun t => t.machine.cycle) =
        List.range' m.cycle (ts.countP Moment.attempts))
    (fun m _ _ => rfl) (fun {t ts r} hs ih hrestarts hok => ?_) m actions
  have hrest := ih (fun u hu => hrestarts u (List.mem_cons_of_mem _ hu))
    fun u hu => hok u (List.mem_cons_of_mem _ hu)
  have hfirst := t.cycle_report hs
  rw [hrestarts t List.mem_cons_self, if_neg Bool.false_ne_true] at hfirst
  have hexecutes : t.executes = t.attempts := by
    rw [Moment.executes_eq]
    cases hattempts : t.attempts with
    | false => rfl
    | true => rw [hok t List.mem_cons_self (of_decide_eq_true hattempts).1, Bool.true_and]
  rw [hfirst, hexecutes] at hrest
  rw [List.filter_cons, Moment.countP_cons]
  cases hattempts : t.attempts with
  | false =>
    rw [hattempts] at hrest
    rw [if_neg Bool.false_ne_true, hrest, Bool.toNat_false, Nat.zero_add, Nat.add_zero]
  | true =>
    rw [hattempts] at hrest
    rw [if_pos rfl, List.map_cons, hrest, Bool.toNat_true, Nat.add_comm 1, List.range'_succ]

/-! ## Machines that get no further -/

theorem act_of_leavesWaiting {m : Machine} (h : m.isWaiting = true) {a : Action}
    (ha : a.operation.LeavesWaiting) :
    (m.act a).trace = [] ∧ (m.act a).machine.isWaiting = true := by
  obtain ⟨s, o⟩ := a
  have htick : m.tick.machine.isWaiting = true := by
    rw [m.machine_tick]
    exact h
  have hidle : (m.flags.pause || m.isWaiting) = true := by rw [h, Bool.or_true]
  cases o with
  | load rom =>
    show (m.load rom).trace = [] ∧ (m.load rom).machine.isWaiting = true
    rw [m.load_of_lt ha]
    exact ⟨rfl, h⟩
  | reset => exact ha.elim
  | step =>
    show (m.step s.keypad (s.dice 0)).trace = [] ∧
      (m.step s.keypad (s.dice 0)).machine.isWaiting = true
    rw [step_of_idle hidle]
    exact ⟨rfl, h⟩
  | multistep n =>
    show (m.multistep s n).trace = [] ∧ (m.multistep s n).machine.isWaiting = true
    rw [multistep_of_waiting h]
    exact ⟨m.trace_tick, htick⟩
  | tick => exact ⟨m.trace_tick, htick⟩
  | deliverKey key =>
    show (m.deliverKey key).trace = [] ∧ (m.deliverKey key).machine.isWaiting = true
    rw [m.deliverKey_of_lt ha]
    exact ⟨rfl, h⟩
  | setRegister register value =>
    refine ⟨m.trace_act_of_ne_step trivial nofun, ?_⟩
    show (m.setRegister register value).machine.isWaiting = true
    rw [m.machine_setRegister]
    exact h
  | editMemory edit =>
    refine ⟨m.trace_act_of_ne_step trivial nofun, ?_⟩
    show (m.editMemory edit).machine.isWaiting = true
    rw [m.machine_editMemory]
    exact h
  | setFlags flags => exact ⟨rfl, h⟩

theorem trace_of_waiting {m : Machine} (h : m.isWaiting = true) {later : List Action}
    (hl : ∀ a ∈ later, a.operation.LeavesWaiting) :
    (m.run later).trace = [] ∧ (m.run later).machine.isWaiting = true := by
  induction later generalizing m with
  | nil => exact ⟨rfl, h⟩
  | cons a rest ih =>
    obtain ⟨htrace, hstill⟩ := act_of_leavesWaiting h (hl a List.mem_cons_self)
    obtain ⟨htrace', hstill'⟩ := ih hstill fun b hb => hl b (List.mem_cons_of_mem _ hb)
    refine ⟨?_, hstill'⟩
    show (m.act a).trace ++ ((m.act a).machine.run rest).trace = []
    rw [htrace, htrace', List.append_nil]

/-- **The instruction that waits for a key has one line**: the step that executes it writes it, and
nothing more is written while the machine waits, nor by the key. -/
theorem trace_of_executes_awaitKey {m : Machine} (hr : m.Regular) (hdebug : m.flags.debug = true)
    {s : Surroundings} {x : Fin 16} (h : Moment.Executes ⟨m, s, .step⟩ (.awaitKey x))
    {later : List Action} (hl : ∀ a ∈ later, a.operation.LeavesWaiting) :
    (m.run (⟨s, .step⟩ :: later)).trace = [m.line] ∧
      ∀ s' key, (m.run (⟨s, .step⟩ :: later ++ [⟨s', .deliverKey key⟩])).trace = [m.line] := by
  have hstep : (Moment.report ⟨m, s, .step⟩).trace = [m.line] := by
    have hattempts : Moment.attempts ⟨m, s, .step⟩ = true := decide_eq_true ⟨rfl, h.active⟩
    rw [Moment.trace_report (t := ⟨m, s, .step⟩) trivial hdebug, if_pos hattempts]
  have hwaits : (Moment.report ⟨m, s, .step⟩).machine.isWaiting = true := by
    rw [(report_of_executes_awaitKey hr h).1]
    rfl
  have hsilent := (trace_of_waiting hwaits hl).1
  have hrun : (m.run (⟨s, .step⟩ :: later)).trace = [m.line] :=
    (congrArg₂ (· ++ ·) hstep hsilent).trans (List.append_nil _)
  refine ⟨hrun, fun s' key => ?_⟩
  have hkey := (m.run (⟨s, .step⟩ :: later)).machine.trace_act_of_ne_step
    (a := ⟨s', .deliverKey key⟩) trivial Operation.noConfusion
  rw [run_append, run_singleton]
  exact (congrArg₂ (· ++ ·) hrun hkey).trans (List.append_nil _)

/-- **A stuck machine repeats its line** with every step. -/
theorem Stuck.trace_run {m : Machine} {fault : Fault} (h : m.Stuck fault) (ha : m.IsActive)
    (hdebug : m.flags.debug = true) {later : List Action}
    (hl : ∀ a ∈ later, a.operation.KeepsProgram ∧ ∀ flags, a.operation ≠ .setFlags flags) :
    (m.run later).trace =
      List.replicate ((m.moments later).countP fun t => t.action.operation = .step) m.line := by
  have hsame : ∀ t ∈ m.moments later, t.machine.line = m.line ∧ t.machine.IsActive := by
    have hsingles : ∀ a ∈ m.singles later,
        a.operation.KeepsProgram ∧ ∀ flags, a.operation ≠ .setFlags flags :=
      forall_mem_singles
        (P := fun o => o.KeepsProgram ∧ ∀ flags, o ≠ .setFlags flags)
        ⟨trivial, fun _ => Operation.noConfusion⟩ ⟨trivial, fun _ => Operation.noConfusion⟩ hl
    refine fun t ht => (forall_mem_walk
      (P := fun m' => m'.Stuck fault ∧ m'.line = m.line ∧ m'.IsActive) ⟨h, rfl, ha⟩
      (fun m' a hmem hm' => ?_) t ht).1.2
    obtain ⟨hkeeps, hflags⟩ := hsingles a hmem
    have hs := isSingle_of_mem_singles hmem
    refine ⟨hm'.1.act hs hkeeps, ?_⟩
    rw [hm'.1.machine_act hs hkeeps hflags]
    exact hm'.2
  have hkeeps : ∀ a ∈ later, a.operation.KeepsDebug := by
    intro a hmem
    have hflags := (hl a hmem).2
    unfold Operation.KeepsDebug
    split
    · rename_i flags heq
      exact absurd heq (hflags flags)
    · trivial
  have hattempts : ∀ t ∈ m.moments later,
      t.attempts = decide (t.action.operation = .step) := by
    intro t ht
    rw [Moment.attempts, Bool.decide_and, decide_eq_true (hsame t ht).2, Bool.and_true]
  rw [(Machine.trace_run hdebug hkeeps).2, List.eq_replicate_iff, List.length_map,
    ← List.countP_eq_length_filter]
  refine ⟨List.countP_congr fun t ht => by rw [hattempts t ht], fun line hline => ?_⟩
  obtain ⟨t, ht, rfl⟩ := List.mem_map.1 hline
  exact (hsame t (List.mem_of_mem_filter ht)).1

/-! ## The theorem -/

/-- **The trace is the history of a run.** Let a machine be made with the trace on, and the host
leave it on. Take any run of it, and the machine in the end.

* The trace has a line for each step in which the machine takes up an instruction, in order, and no
  other. The line shows the machine as the instruction finds it: how many instructions it has
  counted, in decimal digits; the program counter, in hexadecimal ones; and the disassembly of the
  word there, in a column of 36 characters, of which the colours do not show.
* At every moment the machine has counted the instructions that were executed since it was reset or
  a program was accepted.
* So the numbers are consecutive in whatever follows, as long as no step fails and nothing begins
  anew.
* An instruction that waits for a key has one line, however long it waits and whatever the host does
  meanwhile, up to the key.
* A step that fails repeats its line whenever it is made again, if the host leaves program, memory
  and flags as they are. -/
theorem trace_history {flags : Flags} (hdebug : flags.debug = true) {actions : List Action}
    (hkeeps : ∀ a ∈ actions, a.operation.KeepsDebug) :
    let h := (new flags).run actions
    let ts := (new flags).moments actions
    let m := h.machine
    (h.trace = (ts.filter Moment.attempts).map (fun t => t.machine.line) ∧
      ∀ t ∈ ts,
        let count := column 3 t.machine.cycle
        let address := hex 3 t.machine.pc.toNat
        let word := t.machine.memory.word t.machine.pc.toNat
        t.machine.line.text = Colour.brightBlack.tint count ++ " " ++ address ++ ": " ++
          padded 36 (disassemble .standard word) ++ "\n" ∧
        count.toList = (Nat.toDigits 10 t.machine.cycle).leftpad 3 ' ' ∧
        address.toList = (Nat.toDigits 16 t.machine.pc.toNat).leftpad 3 '0' ∧
        ∃ blanks, visible t.machine.line.text =
          count ++ " " ++ address ++ ": " ++ disassembleBare word ++
            String.ofList (List.replicate blanks ' ') ++ "\n") ∧
    ((∀ before t later, ts = before ++ t :: later →
        t.machine.cycle = (sinceRestart before).countP Moment.executes) ∧
      m.cycle = (sinceRestart ts).countP Moment.executes) ∧
    (∀ later, (∀ a ∈ later, a.operation.KeepsDebug) →
      (∀ t ∈ m.moments later, t.restarts = false) →
      (∀ t ∈ m.moments later, t.action.operation = .step → t.report.answer.isOk = true) →
      (m.run later).trace.map TraceLine.cycle = List.range' m.cycle (m.run later).trace.length) ∧
    (∀ s x, Moment.Executes ⟨m, s, .step⟩ (.awaitKey x) →
      ∀ later, (∀ a ∈ later, a.operation.LeavesWaiting) →
        (m.run (⟨s, .step⟩ :: later)).trace = [m.line] ∧
        ∀ s' key, (m.run (⟨s, .step⟩ :: later ++ [⟨s', .deliverKey key⟩])).trace = [m.line]) ∧
    ∀ keypad dice fault, (m.step keypad dice).answer = .error fault →
      ∀ later, (∀ a ∈ later,
          a.operation.KeepsProgram ∧ ∀ flags, a.operation ≠ .setFlags flags) →
        (m.run later).trace =
          List.replicate ((m.moments later).countP fun t => t.action.operation = .step) m.line := by
  intro h ts m
  have hregular : m.Regular := regular_run flags actions
  obtain ⟨hon, htrace⟩ := trace_run (m := new flags) hdebug hkeeps
  refine ⟨⟨htrace, fun t _ => ⟨rfl, toList_column 3 _, toList_hex 3 _, ?seen⟩⟩,
    ⟨fun before t later hts => cycle_of_moments_eq rfl hts, ?counted⟩,
    fun later hlater hrestarts hok => ?consecutive, fun s x hx later hlater => ?awaited,
    fun keypad dice fault hfault later hlater => ?failed⟩
  case seen => exact t.machine.line.visible_text
  case counted =>
    have hsingle : ∀ a ∈ (new flags).singles actions, a.operation.IsSingle :=
      fun a ha => isSingle_of_mem_singles ha
    have hcycle := cycle_run (m := new flags) rfl hsingle
    rw [run_singles] at hcycle
    exact hcycle
  case consecutive =>
    have hcycles := cycles_consecutive hrestarts hok
    rw [(trace_run hon hlater).2, List.map_map, List.length_map, ← List.countP_eq_length_filter]
    exact hcycles
  case awaited => exact trace_of_executes_awaitKey hregular hon hx hlater
  case failed =>
    obtain ⟨hactive, hfatal⟩ := (step_eq_error_iff hregular keypad dice fault).1 hfault
    have hstuck : m.Stuck fault := ⟨hregular, hactive.2, hfatal⟩
    exact hstuck.trace_run hactive hon hlater

theorem trace_history_asking :
    let flags : Flags := { debug := true }
    let actions : List Action := [⟨.calm, .load [0xf3, 0x0a]⟩]
    let later : List Action :=
      [⟨.calm, .tick⟩, ⟨.calm, .step⟩, ⟨.calm, .deliverKey 0x10⟩, ⟨.calm, .multistep 3⟩,
        ⟨.calm, .setRegister 3 1⟩]
    let m := ((new flags).run actions).machine
    flags.debug = true ∧ (∀ a ∈ actions, a.operation.KeepsDebug) ∧
      Moment.Executes ⟨m, .calm, .step⟩ (.awaitKey 3) ∧
      (∀ a ∈ later, a.operation.LeavesWaiting) ∧
      (m.run (⟨.calm, .step⟩ :: later ++ [⟨.calm, .deliverKey 0xa⟩])).trace =
        [⟨0, 0x200, 0xf30a⟩] := by
  intro flags actions later m
  have hkeeps : ∀ a ∈ actions, a.operation.KeepsDebug := by
    simp [actions, Operation.KeepsDebug]
  have hrom : m.memory.HoldsOnly [0xf3, 0x0a] := Memory.holdsOnly_writeAll (by decide)
  have hfetch : m.fetch = 0xf30a := fetch_of_holdsOnly (k := 0) hrom rfl (by decide)
  have hexecutes : Moment.Executes ⟨m, .calm, .step⟩ (.awaitKey 3) :=
    (Moment.executes_of_execute ⟨rfl, rfl⟩ (by rw [hfetch]; rfl) rfl).1
  have hlater : ∀ a ∈ later, a.operation.LeavesWaiting := by
    have hno : (0xf : UInt8) < 0x10 := by decide
    simp [later, Operation.LeavesWaiting, hno]
  have hdebug : flags.debug = true := rfl
  obtain ⟨-, -, -, hawaited, -⟩ := trace_history hdebug hkeeps
  have htrace := (hawaited .calm 3 hexecutes later hlater).2 .calm 0xa
  refine ⟨hdebug, hkeeps, hexecutes, hlater, htrace.trans ?_⟩
  show [TraceLine.mk 0 0x200 m.fetch] = _
  rw [hfetch]

end Machine

end Chip8
