import Chip8.Proofs.Countdown
import Chip8.Proofs.Frames
import Mathlib.Algebra.GroupWithZero.Nat

/-!
# The instruction clock on schedule

The runner gives every frame a whole number of steps and keeps what is left of the clock for the
next one. Nothing is lost by it: after every frame as many steps have been given as the clock has
had time for, rounded down.

* `Pace.shares` are the steps of the first frames; `Pace.sum_shares_add_credit` is the balance of
  the account, and `Pace.share_eq_or_succ` says how far a share can be from the mean.
* `Moments.Scheduled` says that the ticks of a run come on schedule, and `Scheduled.append` adds a
  frame.
* `Runner.runs_on_schedule` is about the runner: it executes an instruction with every step and
  ticks with every frame, as long as nothing fails and nobody waits for a key.
-/

namespace Chip8

namespace Runner.Pace

/-! ## Shares -/

/-- The pace after `k` frames. -/
def after (p : Pace) : Nat → Pace
  | 0 => p
  | k + 1 => (p.after k).next.2

/-- The steps of each of the first `k` frames. -/
def shares (p : Pace) (k : Nat) : List Nat :=
  (List.range k).map fun j => (p.after j).next.1

theorem shares_succ (p : Pace) (k : Nat) :
    p.shares (k + 1) = p.shares k ++ [(p.after k).next.1] := by
  simp [shares, List.range_succ]

theorem sum_shares_succ (p : Pace) (k : Nat) :
    (p.shares (k + 1)).sum = (p.shares k).sum + (p.after k).next.1 := by
  simp [shares_succ]

@[simp]
theorem clock_after (p : Pace) (k : Nat) : (p.after k).clock = p.clock := by
  induction k with
  | zero => rfl
  | succ k ih => exact ih

theorem credit_next_lt (p : Pace) : p.next.2.credit < frameRate :=
  Nat.mod_lt _ (by decide)

theorem credit_after_lt {p : Pace} (h : p.credit < frameRate) (k : Nat) :
    (p.after k).credit < frameRate := by
  cases k with
  | zero => exact h
  | succ k => exact (p.after k).credit_next_lt

/-- Steps and credit of a frame make up the credit before it and the clock, up to the limit. -/
theorem next_balance (p : Pace) :
    frameRate * p.next.1 + p.next.2.credit = min (p.credit + p.clock) creditLimit :=
  Nat.div_add_mod _ _

/-- **No part of a step is lost**, as long as the limit is not reached. -/
theorem sum_shares_add_credit {p : Pace} (hcredit : p.credit < frameRate)
    (hclock : p.clock + frameRate ≤ creditLimit + 1) (k : Nat) :
    frameRate * (p.shares k).sum + (p.after k).credit = p.credit + k * p.clock := by
  induction k with
  | zero => simp [shares, after]
  | succ k ih =>
    have hlt := credit_after_lt hcredit k
    have hnext := (p.after k).next_balance
    rw [clock_after, Nat.min_eq_left (by omega)] at hnext
    rw [sum_shares_succ, Nat.mul_add, Nat.succ_mul]
    show _ + (p.after k).next.2.credit = _
    omega

/-- At the limit something is lost, but nothing is ever added. -/
theorem sum_shares_add_credit_le (p : Pace) (k : Nat) :
    frameRate * (p.shares k).sum + (p.after k).credit ≤ p.credit + k * p.clock := by
  induction k with
  | zero => simp [shares, after]
  | succ k ih =>
    have hnext := (p.after k).next_balance
    rw [clock_after] at hnext
    rw [sum_shares_succ, Nat.mul_add, Nat.succ_mul]
    show _ + (p.after k).next.2.credit ≤ _
    omega

/-- A share is the clock divided by the frames of a second, rounded down, or one more. -/
theorem share_eq_or_succ {p : Pace} (hcredit : p.credit < frameRate)
    (hclock : p.clock ≤ creditLimit) {k x : Nat} (hx : x ∈ p.shares k) :
    x = p.clock / frameRate ∨ x = p.clock / frameRate + 1 := by
  obtain ⟨j, -, rfl⟩ := List.mem_map.1 hx
  have hlt := credit_after_lt hcredit j
  have hnext := (p.after j).next_balance
  have hleft := (p.after j).credit_next_lt
  rw [clock_after] at hnext
  unfold frameRate at *
  omega

end Runner.Pace

/-! ## Ticks on schedule -/

theorem Moment.countsDown_of_executes {t : Moment} (h : t.executes = true) :
    t.countsDown = false := by
  obtain ⟨i, hi⟩ := t.executes_iff.1 h
  rw [countsDown, hi.step]
  rfl

theorem Moment.executes_of_countsDown {t : Moment} (h : t.countsDown = true) :
    t.executes = false := by
  cases he : t.executes with
  | false => rfl
  | true =>
    rw [countsDown_of_executes he] at h
    cases h

/-- The moments of a frame in which all goes as planned: `k` instructions, a tick, and perhaps a key
that nobody waits for. -/
inductive IsFrame (k : Nat) : List Moment → Prop
  | mk {steps : List Moment} {tick : Moment} {later : List Moment} (length_eq : steps.length = k)
      (executes : ∀ t ∈ steps, t.executes = true) (countsDown : tick.countsDown = true)
      (delivers : ∀ t ∈ later, ∃ key, t.action.operation = .deliverKey key) :
      IsFrame k (steps ++ tick :: later)

theorem IsFrame.cons {k : Nat} {ts : List Moment} (h : IsFrame k ts) {t : Moment}
    (ht : t.executes = true) : IsFrame (k + 1) (t :: ts) := by
  obtain ⟨hlength, hexecutes, hdown, hdelivers⟩ := h
  exact .mk (congrArg (· + 1) hlength) (List.forall_mem_cons.2 ⟨ht, hexecutes⟩) hdown hdelivers

/-- After `n` ticks `due n` instructions have been executed, and when each tick came those that were
due by then. -/
structure Scheduled (due : Nat → Nat) (n : Nat) (ts : List Moment) : Prop where
  executed : ts.countP Moment.executes = due n
  ticked : ts.countP Moment.countsDown = n
  on_time : ∀ before t later, ts = before ++ t :: later → t.countsDown = true →
    before.countP Moment.executes = due (before.countP Moment.countsDown + 1)

/-- If a property distinguishes one element of a list, the list can be split there in one way
only. -/
theorem eq_of_append_cons_eq {α : Type} {p : α → Bool} {xs zs ws vs : List α} {y w : α}
    (h : xs ++ y :: zs = ws ++ w :: vs) (hxs : ∀ x ∈ xs, p x = false)
    (hzs : ∀ z ∈ zs, p z = false) (hw : p w = true) : xs = ws := by
  induction xs generalizing ws with
  | nil =>
    cases ws with
    | nil => rfl
    | cons a ws =>
      obtain ⟨-, rfl⟩ := List.cons.inj h
      have hfalse := hzs w (List.mem_append_right _ List.mem_cons_self)
      cases hfalse.symm.trans hw
  | cons x xs ih =>
    cases ws with
    | nil =>
      obtain ⟨rfl, -⟩ := List.cons.inj h
      cases (hxs x List.mem_cons_self).symm.trans hw
    | cons a ws =>
      obtain ⟨rfl, hrest⟩ := List.cons.inj h
      rw [ih hrest fun x hx => hxs x (List.mem_cons_of_mem _ hx)]

/-- **A frame that goes as planned keeps to the schedule.** -/
theorem Scheduled.append {due : Nat → Nat} {n k : Nat} {ts frame : List Moment}
    (h : Scheduled due n ts) (hf : IsFrame k frame) (hdue : due (n + 1) = due n + k) :
    Scheduled due (n + 1) (ts ++ frame) := by
  obtain @⟨steps, tick, later, hlength, hexecutes, hdown, hdelivers⟩ := hf
  have hsilent : ∀ t ∈ later, t.executes = false ∧ t.countsDown = false := by
    intro t ht
    obtain ⟨key, hkey⟩ := hdelivers t ht
    simp [Moment.executes, Moment.countsDown, hkey]
  have hsteps : ∀ t ∈ steps, t.countsDown = false :=
    fun t ht => Moment.countsDown_of_executes (hexecutes t ht)
  have hcount : steps.countP Moment.executes = k := by
    rw [List.countP_eq_length.2 hexecutes, hlength]
  have hnone : steps.countP Moment.countsDown = 0 :=
    List.countP_eq_zero.2 fun t ht => by simp [hsteps t ht]
  have hlater : later.countP Moment.executes = 0 ∧ later.countP Moment.countsDown = 0 :=
    ⟨List.countP_eq_zero.2 fun t ht => by simp [(hsilent t ht).1],
      List.countP_eq_zero.2 fun t ht => by simp [(hsilent t ht).2]⟩
  refine ⟨?_, ?_, fun before t after heq ht => ?_⟩
  · simp [h.executed, hcount, hlater, Moment.executes_of_countsDown hdown, hdue]
  · simp [h.ticked, hnone, hlater, hdown]
  · -- the tick is one of those before, or the one of this frame
    have hlast : ∀ as, steps ++ tick :: later = as ++ t :: after →
        (ts ++ as).countP Moment.executes = due ((ts ++ as).countP Moment.countsDown + 1) := by
      intro as hframe
      obtain rfl := eq_of_append_cons_eq hframe hsteps (fun t ht => (hsilent t ht).2) ht
      simp [h.executed, h.ticked, hcount, hnone, hdue]
    rcases List.append_eq_append_iff.1 heq with ⟨as, rfl, hframe⟩ | ⟨bs, hbs, hrest⟩
    · exact hlast as hframe
    · cases bs with
      | nil =>
        have hframe := hlast [] hrest.symm
        rwa [hbs, List.append_nil, List.append_nil] at hframe
      | cons u bs =>
        obtain ⟨rfl, -⟩ := List.cons.inj hrest
        exact h.on_time before t bs hbs ht

/-! ## Frames of the runner -/

theorem Moment.Executes.isActive {t : Moment} {i : Instruction} (h : t.Executes i)
    (hi : ∀ x, i ≠ .awaitKey x) : t.report.machine.IsActive := by
  rw [h.machine_eq]
  refine ⟨h.active.1, ?_⟩
  cases i with
  | awaitKey x => exact absurd rfl (hi x)
  | _ => exact h.active.2

/-- Several steps of an active machine that do not fail, and of which none waits for a key, are as
many instructions; the tick comes after them. -/
theorem Machine.isFrame_stepSingles {m : Machine} (ha : m.IsActive) {s : Surroundings} {n : Nat}
    (hok : (m.multistep s n).answer = .ok ())
    (hno : ∀ t ∈ m.walk (m.stepSingles s n), ∀ x, ¬t.Executes (.awaitKey x)) {later : List Moment}
    (hlater : ∀ t ∈ later, ∃ key, t.action.operation = .deliverKey key) :
    IsFrame n (m.walk (m.stepSingles s n) ++ later) ∧
      (m.multistep s n).machine.status = .running := by
  refine multistep_induction
    (P := fun m n ts r => m.IsActive → r.answer = .ok () →
      (∀ t ∈ ts, ∀ x, ¬t.Executes (.awaitKey x)) →
      IsFrame n (ts ++ later) ∧ r.machine.status = .running)
    (fun m s ha _ _ => ?tick) (fun n hr _ hok => ?failed)
    (fun {m s n} hr ih ha hok hno => ?stepped) m s n ha hok hno
  case tick =>
    have hdown : Moment.countsDown ⟨m, s, .tick⟩ = true := by simp [Moment.countsDown, ha.1]
    have hnone : ∀ t ∈ ([] : List Moment), t.executes = true := fun t ht =>
      absurd ht List.not_mem_nil
    refine ⟨.mk rfl hnone hdown hlater, ?_⟩
    rw [machine_tick]
    exact ha.2
  case failed => cases hr.symm.trans hok
  case stepped =>
    have hanswer : (Moment.report ⟨m, s, .step⟩).answer = .ok none := congrArg (Except.map _) hr
    obtain ⟨i, hi⟩ | ⟨-, -, hidle⟩ := Moment.executes_or_unchanged m s
    · have hactive := hi.isActive fun x hx => hno _ List.mem_cons_self x (hx ▸ hi)
      obtain ⟨hframe, hrunning⟩ := ih hactive hok fun t ht => hno t (List.mem_cons_of_mem _ ht)
      exact ⟨hframe.cons ((Moment.executes_iff _).2 ⟨i, hi⟩), hrunning⟩
    · exact absurd ha (hidle hanswer)

namespace Runner

namespace Session

/-- **A frame goes as planned** if nothing fails in it and nobody waits for a key. -/
theorem Sound.isFrame {settings : Settings} {s : Session} (h : s.Sound settings)
    (hrunning : s.machine.status = .running) (hok : s.answer = .ok ())
    (hno : ∀ t ∈ s.frameMoments, ∀ x, ¬t.Executes (.awaitKey x)) :
    IsFrame s.pace.next.1 s.frameMoments ∧ s.frame.session.machine.status = .running := by
  rw [h.answer_eq] at hok
  rw [frameMoments_eq] at hno ⊢
  obtain ⟨hframe, (hstatus : s.stepsReport.machine.status = .running)⟩ :=
    Machine.isFrame_stepSingles ⟨h.pause_eq, hrunning⟩ hok
      (fun t ht => hno t (List.mem_append_left _ ht)) fun t ht => mem_moments_deliveries ht
  refine ⟨hframe, ?_⟩
  rw [machine_frame]
  cases hkey : settings.key with
  | none =>
    rw [machine_history_of_no_key (h.settings_eq ▸ hkey)]
    exact hstatus
  | some key =>
    rw [machine_history_of_key (h.settings_eq ▸ hkey) hok,
      Machine.deliverKey_of_running hstatus (h.key_le key hkey)]
    exact hstatus

theorem pace_after {s : Session} {n : Nat} (h : (s.after n).ended = false) :
    (s.after n).pace = s.pace.after n := by
  induction n with
  | zero => rfl
  | succ n ih =>
    have hn := ended_after_of_succ h
    rw [after_succ hn, pace_frame, ih hn]
    rfl

/-- **A run keeps to the shares of its pace**, as long as nothing fails and nobody waits for a
key. -/
theorem Sound.scheduled {settings : Settings} {s : Session} (h : s.Sound settings)
    (hrunning : s.machine.status = .running) {n : Nat} (hn : (s.after n).ended = false)
    (hno : ∀ t ∈ s.moments n, ∀ x, ¬t.Executes (.awaitKey x)) :
    Scheduled (fun j => (s.pace.shares j).sum) n (s.moments n) ∧
      (s.after n).machine.status = .running := by
  induction n with
  | zero =>
    refine ⟨⟨rfl, rfl, fun before t later heq => ?_⟩, hrunning⟩
    exact absurd heq.symm (List.append_ne_nil_of_right_ne_nil _ (List.cons_ne_nil _ _))
  | succ n ih =>
    have hlast := ended_after_of_succ hn
    rw [moments_succ hlast] at hno ⊢
    obtain ⟨hscheduled, hstatus⟩ := ih hlast fun t ht => hno t (List.mem_append_left _ ht)
    rw [after_succ hlast] at hn ⊢
    obtain ⟨hframe, hstatus'⟩ := (h.after n).isFrame hstatus ((ended_frame hlast).1 hn)
      fun t ht => hno t (List.mem_append_right _ ht)
    refine ⟨hscheduled.append hframe ?_, hstatus'⟩
    simp only [pace_after hlast, Pace.sum_shares_succ]

end Session

/-- **The instruction clock is kept.** Let a clock be given.

* Unless it is so fast that the credit can meet its limit, the steps of the first `k` frames are as
  many as fit into `k` sixtieths of a second, and the credit is the remainder.
* However fast it is, less than a step is left over after every frame, every frame gets the mean
  number of steps, rounded down, or one more, and there are never more steps than fit.
* A run with such a clock in which nothing fails, and no instruction that waits for a key is
  executed, has executed all of these steps after `n` frames and has had `n` ticks, and each of the
  ticks came when the instructions due by then had been executed. -/
theorem runs_on_schedule {clock : Nat} (hclock : clock < 2 ^ 64) :
    let pace : Pace := { clock := clock }
    (clock ≤ 2 ^ 64 - 60 → ∀ k,
      (pace.shares k).sum = k * clock / 60 ∧ (pace.after k).credit = k * clock % 60) ∧
    (∀ k,
      (pace.after k).credit < 60 ∧
      (∀ x ∈ pace.shares k, x = clock / 60 ∨ x = clock / 60 + 1) ∧
      (pace.shares k).sum ≤ k * clock / 60) ∧
    ∀ settings dice file s, settings.clock = clock → clock ≤ 2 ^ 64 - 60 →
      start settings dice file = .ok s → ∀ n, (s.after n).ended = false →
      (∀ t ∈ s.moments n, ∀ x, ¬t.Executes (.awaitKey x)) →
      (s.moments n).countP Moment.executes = n * clock / 60 ∧
      (s.moments n).countP Moment.countsDown = n ∧
      ∀ before t later, s.moments n = before ++ t :: later → t.countsDown = true →
        before.countP Moment.executes =
          (before.countP Moment.countsDown + 1) * clock / 60 := by
  intro pace
  have hcredit : pace.credit < frameRate := Nat.succ_pos _
  have hexact : clock ≤ 2 ^ 64 - 60 → ∀ k,
      (pace.shares k).sum = k * clock / 60 ∧ (pace.after k).credit = k * clock % 60 := by
    intro hslow k
    have hlimit : clock + frameRate ≤ creditLimit + 1 := Nat.add_le_of_le_sub (by decide) hslow
    have hbalance : 60 * (pace.shares k).sum + (pace.after k).credit = 0 + k * clock :=
      Pace.sum_shares_add_credit hcredit hlimit k
    have hlt : (pace.after k).credit < 60 := Pace.credit_after_lt hcredit k
    omega
  refine ⟨hexact, fun k => ⟨Pace.credit_after_lt hcredit k, fun x hx => ?_, ?_⟩, ?_⟩
  · exact Pace.share_eq_or_succ hcredit (Nat.le_sub_one_of_lt hclock) hx
  · have hbalance : 60 * (pace.shares k).sum + (pace.after k).credit ≤ 0 + k * clock :=
      pace.sum_shares_add_credit_le k
    omega
  · intro settings dice file s hsettings hslow hs n hn hno
    obtain ⟨rom, -, hrom, -, hbegins⟩ := begins_of_start hs
    have hpace : s.pace = pace := by rw [hbegins.pace_eq, hsettings]
    have hrunning : s.machine.status = .running := by
      rw [hbegins.machine_eq, Machine.load_new _ hrom]
      rfl
    obtain ⟨⟨hexecuted, hticked, hontime⟩, -⟩ := (sound_of_start hs).scheduled hrunning hn hno
    simp only [hpace, (hexact hslow _).1] at hexecuted hontime
    exact ⟨hexecuted, hticked, hontime⟩

/-- Ninety steps in a second are three in two frames. -/
theorem runs_on_schedule_spinning :
    let settings : Settings := { clock := 90 }
    let dice : Nat → UInt8 := fun _ => 0
    let s := begun settings dice ((Machine.new settings.flags).load [0x12, 0x00]) Keypad.idle
    start settings dice (.ok [0x12, 0x00]) = .ok s ∧ (s.after 2).ended = false ∧
      (∀ t ∈ s.moments 2, ∀ x, ¬t.Executes (.awaitKey x)) ∧
      (s.moments 2).countP Moment.executes = 3 ∧ (s.moments 2).countP Moment.countsDown = 2 := by
  intro settings dice s
  have hs : start settings dice (.ok [0x12, 0x00]) = .ok s := rfl
  have hn : (s.after 2).ended = false := by decide +kernel
  have hnone : (s.moments 2).all (fun t => !t.startsWaiting) = true := by decide +kernel
  have hno : ∀ t ∈ s.moments 2, ∀ x, ¬t.Executes (.awaitKey x) := by
    intro t ht x hx
    have hstarts := t.startsWaiting_iff.2 ⟨x, hx⟩
    have hfalse := List.all_eq_true.1 hnone t ht
    rw [hstarts] at hfalse
    cases hfalse
  have hclock : 90 < 2 ^ 64 := by decide
  obtain ⟨-, -, hrun⟩ := runs_on_schedule hclock
  obtain ⟨hexecuted, hticked, -⟩ := hrun settings dice _ s rfl (by decide) hs 2 hn hno
  exact ⟨hs, hn, hno, hexecuted, hticked⟩

end Runner

end Chip8
