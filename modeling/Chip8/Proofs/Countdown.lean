import Chip8.Proofs.Restart
import Chip8.Proofs.Tone

/-!
# The countdown

As long as no instruction sets a timer and no program begins anew, the timers do nothing but count
down: by one with every tick that the pause does not hold up, those at the end of several steps
included, and never below zero. The tone is told of once, by the tick that brings the sound timer to
zero.

* `Countdown` says what some ticks do to the timers, and `Countdown.trans` puts ticks together.
* `Moment.countdown_report` is what a single action does.
* `Machine.countP_countsDown_moments` counts the ticks that are part of several steps.
* `Machine.countdown_run` and `Machine.timers_count_down` say it of everything that a host does.
-/

namespace Chip8

/-- Whether an instruction sets a timer. -/
def Instr.SetsTimer {ν α : Type} : Instr ν α → Prop
  | .setDelay _ | .setSound _ => True
  | _ => False

/-! ## Ticks -/

/-- What `k` ticks make of the timers `t`, and what they tell of the tone. -/
structure Countdown (t t' : Timers) (k : Nat) (told : List Event) : Prop where
  delay : t'.delay.toNat = t.delay.toNat - min t.delay.toNat k
  sound : t'.sound.toNat = t.sound.toNat - min t.sound.toNat k
  told_eq : told = if 0 < t.sound.toNat ∧ t.sound.toNat ≤ k then [.toneStop] else []

namespace Countdown

theorem refl (t : Timers) : Countdown t t 0 [] where
  delay := by omega
  sound := by omega
  told_eq := by rw [if_neg (by omega)]

theorem tick (t : Timers) : Countdown t t.tick.2 1 (if t.tick.1 then [.toneStop] else []) where
  delay := by
    rw [t.delay_tick]
    omega
  sound := by
    rw [t.sound_tick]
    omega
  told_eq := by
    have hsound : t.sound ≠ 0 ↔ t.sound.toNat ≠ 0 := not_congr UInt8.toNat_inj.symm
    have hafter : t.tick.2.sound = 0 ↔ t.sound.toNat - 1 = 0 := by
      rw [← t.sound_tick]
      exact UInt8.toNat_inj.symm
    refine ite_congr (propext ?_) (fun _ => rfl) fun _ => rfl
    rw [t.tick_fst_iff, hsound, hafter]
    omega

/-- **Ticks after others**: they count from where those end. -/
theorem trans {t t' t'' : Timers} {j k : Nat} {told told' : List Event}
    (h : Countdown t t' j told) (h' : Countdown t' t'' k told') :
    Countdown t t'' (j + k) (told ++ told') where
  delay := by
    rw [h'.delay, h.delay]
    omega
  sound := by
    rw [h'.sound, h.sound]
    omega
  told_eq := by
    -- the tone stops within the first ticks, or within the others, or not at all
    rw [h.told_eq, h'.told_eq, h.sound]
    by_cases hfirst : 0 < t.sound.toNat ∧ t.sound.toNat ≤ j
    · rw [if_pos hfirst, if_neg (by omega), if_pos (by omega), List.append_nil]
    · rw [if_neg hfirst, List.nil_append]
      exact ite_congr (propext (by omega)) (fun _ => rfl) fun _ => rfl

end Countdown

/-! ## Moments -/

namespace Moment

/-- The timers are counted down: by a tick that the pause does not hold up, or by the one after
several steps of which none fails. -/
def countsDown (t : Moment) : Bool :=
  (match t.action.operation with
    | .tick => true
    | .multistep _ => t.report.answer.isOk
    | _ => false) && !t.machine.flags.pause

/-- Nothing but the countdown has to do with the timers: no instruction sets one, and no program
begins anew. -/
structure LeavesTimers (t : Moment) : Prop where
  not_setsTimer : ∀ i, t.Executes i → ¬i.SetsTimer
  not_reset : t.action.operation ≠ .reset
  accepted?_eq_none : t.accepted? = none

theorem Executes.countdown_report {t : Moment} {i : Instruction} (h : t.Executes i)
    (hi : ¬i.SetsTimer) :
    Countdown t.machine.timers t.report.machine.timers 0
      (t.report.events.filter Event.isTone) := by
  have hsound : ∀ x, i ≠ .setSound x := fun x hx => hi (hx ▸ trivial)
  have hsilent : t.report.events.filter Event.isTone = [] := by
    rw [h.events_eq]
    exact Machine.filter_isTone_eventsAfter hsound
  have htimers : t.report.machine.timers = t.machine.timers := by
    rw [h.machine_eq]
    cases i with
    | setDelay | setSound => exact absurd trivial hi
    | _ => rfl
  rw [htimers, hsilent]
  exact .refl t.machine.timers

/-- **What a single action does to the timers.** -/
theorem countdown_report {t : Moment} (hs : t.action.operation.IsSingle) (h : t.LeavesTimers) :
    Countdown t.machine.timers t.report.machine.timers t.countsDown.toNat
      (t.report.events.filter Event.isTone) := by
  obtain ⟨m, s, o⟩ := t
  cases o with
  | multistep n => exact hs.elim
  | reset => exact absurd rfl h.not_reset
  | load rom =>
    have hlarge : Region.program.size < rom.length := by
      refine Nat.not_le.1 fun hle => ?_
      cases h.accepted?_eq_none.symm.trans (m.accepted?_load s hle)
    rw [report_load, m.load_of_lt hlarge]
    exact .refl m.timers
  | step =>
    rcases executes_or_unchanged m s with ⟨i, hi⟩ | ⟨hmachine, hevents, -⟩
    · exact hi.countdown_report (h.not_setsTimer i hi)
    · rw [hmachine, hevents]
      exact .refl m.timers
  | tick =>
    have hcounts : countsDown ⟨m, s, .tick⟩ = !m.flags.pause := rfl
    rw [report_tick, hcounts]
    cases hp : m.flags.pause with
    | true =>
      rw [Machine.tick_of_pause hp]
      exact .refl m.timers
    | false =>
      rw [Machine.tick_of_not_pause hp]
      have htone : (if m.timers.tick.1 then [Event.toneStop] else []).filter Event.isTone =
          if m.timers.tick.1 then [.toneStop] else [] := by
        split <;> rfl
      show Countdown _ _ _ ((if m.timers.tick.1 then [Event.toneStop] else []).filter Event.isTone)
      rw [htone]
      exact .tick m.timers
  | deliverKey key =>
    rw [report_deliverKey, Machine.deliverKey]
    split
    · exact .refl m.timers
    · split <;> exact .refl m.timers
  | setRegister register value =>
    have hreport : report ⟨m, s, .setRegister register value⟩ =
        (m.setRegister register value).map fun _ => none := rfl
    rw [hreport, Machine.setRegister]
    split <;> exact .refl m.timers
  | editMemory edit =>
    have hreport : report ⟨m, s, .editMemory edit⟩ = (m.editMemory edit).map fun _ => none := rfl
    rw [hreport, Machine.editMemory]
    split <;> exact .refl m.timers
  | setFlags flags => exact .refl m.timers

end Moment

namespace Machine

/-! ## Ticks that are part of several steps -/

theorem countsDown_multistep (m : Machine) (s : Surroundings) (n : Nat) :
    Moment.countsDown ⟨m, s, .multistep n⟩ =
      ((m.multistep s n).answer.isOk && !m.flags.pause) := by
  show (((m.multistep s n).answer.map fun _ => none).isOk && !m.flags.pause) = _
  cases (m.multistep s n).answer <;> rfl

theorem countP_countsDown_stepSingles (m : Machine) (s : Surroundings) (n : Nat) :
    (m.walk (m.stepSingles s n)).countP Moment.countsDown =
      (Moment.countsDown ⟨m, s, .multistep n⟩).toNat := by
  induction n generalizing m s with
  | zero =>
    rw [stepSingles, walk, Moment.countP_cons, countsDown_multistep, multistep_zero, answer_tick]
    rfl
  | succ n ih =>
    have hflags : (m.step s.keypad (s.dice 0)).machine.flags = m.flags := by rw [machine_step]
    have hact : (m.act ⟨s, .step⟩).machine = (m.step s.keypad (s.dice 0)).machine := rfl
    have hstep : Moment.countsDown ⟨m, s, .step⟩ = false := rfl
    rw [stepSingles, walk, Moment.countP_cons, hstep, hact, countsDown_multistep, multistep_succ]
    show 0 + _ = _
    generalize m.step s.keypad (s.dice 0) = r at hflags
    obtain ⟨answer, machine, events, trace⟩ := r
    cases answer with
    | error fault => rfl
    | ok =>
      show 0 + (machine.walk (machine.stepSingles (s.drop 1) n)).countP Moment.countsDown = _
      rw [ih, countsDown_multistep, Nat.zero_add, ← hflags]

/-- Writing several steps out one by one does not change how often the timers are counted down. -/
theorem countP_countsDown_moments (m : Machine) (actions : List Action) :
    (m.moments actions).countP Moment.countsDown =
      (m.walk actions).countP Moment.countsDown := by
  induction actions generalizing m with
  | nil => rfl
  | cons a rest ih =>
    rw [moments_cons, List.countP_append, ih, walk, Moment.countP_cons]
    congr 1
    obtain ⟨s, o⟩ := a
    cases o with
    | multistep n => exact m.countP_countsDown_stepSingles s n
    | _ => exact (Moment.countP_cons _ _ []).trans (Nat.add_zero _)

/-! ## Runs -/

theorem countdown_run {m : Machine} {actions : List Action}
    (h : ∀ t ∈ m.moments actions, t.LeavesTimers) :
    Countdown m.timers (m.run actions).machine.timers
      ((m.walk actions).countP Moment.countsDown)
      ((m.run actions).events.filter Event.isTone) := by
  rw [← countP_countsDown_moments]
  refine moments_induction
    (P := fun m moments r => (∀ t ∈ moments, t.LeavesTimers) →
      Countdown m.timers r.machine.timers (moments.countP Moment.countsDown)
        (r.events.filter Event.isTone))
    (fun m _ => .refl m.timers) (fun {t _ r} hs hrest h => ?_) m actions h
  have hfirst := Moment.countdown_report hs (h t List.mem_cons_self)
  rw [Moment.countP_cons]
  show Countdown _ _ _ ((t.report.events ++ r.events).filter Event.isTone)
  rw [List.filter_append]
  exact hfirst.trans (hrest fun u hu => h u (List.mem_cons_of_mem _ hu))

/-- **The timers count down.** Suppose that in a run no instruction sets a timer and no program
begins anew. Let `k` be how often the timers are counted down, once for each tick that the pause
does not hold up and for each time that several steps come out well without a pause. Then each timer
is `k` lower, or zero; the tone does not start, and it stops once if its timer comes to zero and was
not zero before, by the operation with which it has been counted down as often as it was high. -/
theorem timers_count_down (m : Machine) {actions : List Action}
    (h : ∀ t ∈ m.moments actions, t.LeavesTimers) :
    let d := m.timers.delay.toNat
    let s := m.timers.sound.toNat
    let k := (m.walk actions).countP Moment.countsDown
    let after := m.run actions
    after.machine.timers.delay.toNat = d - min d k ∧
      after.machine.timers.sound.toNat = s - min s k ∧
      after.events.filter Event.isTone = (if 0 < s ∧ s ≤ k then [.toneStop] else []) ∧
      ∀ before a later, actions = before ++ a :: later →
        let t : Moment := ⟨(m.run before).machine, a⟩
        t.report.events.filter Event.isTone =
          if t.countsDown ∧ (m.walk before).countP Moment.countsDown + 1 = s then [.toneStop]
          else [] := by
  intro d s k after
  obtain ⟨hdelay, hsound, htold⟩ := countdown_run h
  refine ⟨hdelay, hsound, htold, ?_⟩
  rintro before a later rfl t
  have hsplit : before ++ a :: later = before ++ ([a] ++ later) := rfl
  rw [hsplit, moments_append, moments_append] at h
  have hbefore := countdown_run fun u hu => h u (List.mem_append_left _ hu)
  have ht := countdown_run fun u hu => h u (List.mem_append_right _ (List.mem_append_left _ hu))
  have hcount : (t.machine.walk [a]).countP Moment.countsDown = t.countsDown.toNat :=
    (Moment.countP_cons _ t []).trans (Nat.add_zero _)
  rw [hcount, run_singleton] at ht
  refine ht.told_eq.trans (ite_congr (propext ?_) (fun _ => rfl) fun _ => rfl)
  have hleft : t.machine.timers.sound.toNat = s - min s _ := hbefore.sound
  rw [hleft]
  cases t.countsDown with
  | false =>
    show _ ∧ _ ≤ 0 ↔ false = true ∧ _
    exact iff_of_false (fun hno => Nat.not_le.2 hno.1 hno.2) (fun hno => Bool.noConfusion hno.1)
  | true =>
    show _ ∧ _ ≤ 1 ↔ true = true ∧ _
    rw [and_iff_right rfl]
    omega

/-- A machine whose tone is in its last moment. -/
def fading : Machine :=
  { ((new {}).load [0x60, 0x05]).machine with timers := ⟨3, 1⟩ }

/-- Of three ticks the first comes in a pause; the second one ends the tone of `fading`. -/
theorem timers_count_down_fading :
    let actions : List Action :=
      [⟨.calm, .setFlags { pause := true }⟩, ⟨.calm, .tick⟩, ⟨.calm, .setFlags {}⟩, ⟨.calm, .tick⟩,
        ⟨.calm, .tick⟩, ⟨.calm, .step⟩]
    (∀ t ∈ fading.moments actions, t.LeavesTimers) ∧
      (fading.run actions).machine.timers.delay.toNat = 1 ∧
      (fading.run actions).machine.timers.sound.toNat = 0 ∧
      (fading.run actions).events.filter Event.isTone = [.toneStop] := by
  intro actions
  have hquiet : ∀ t : Moment, t.action.operation ≠ .step → t.action.operation ≠ .reset →
      t.accepted? = none → t.LeavesTimers :=
    fun t hstep hreset haccepted => ⟨fun i hi => absurd hi.step hstep, hreset, haccepted⟩
  have hrom : fading.memory.HoldsOnly [0x60, 0x05] := Memory.holdsOnly_writeAll (by decide)
  have hfetch : fading.fetch = 0x6005 := fetch_of_holdsOnly (k := 0) hrom rfl (by decide)
  have hstep : ∀ m : Machine, m.fetch = fading.fetch →
      Moment.LeavesTimers ⟨m, .calm, .step⟩ := by
    refine fun m hm => ⟨fun i hi => ?_, Operation.noConfusion, rfl⟩
    have hword := hi.word
    rw [hm, hfetch] at hword
    obtain rfl : Instr.setByte 0 5 = i := Option.some.inj hword
    exact id
  have hleaves : ∀ t ∈ fading.moments actions, t.LeavesTimers := by
    show ∀ t ∈ fading.walk actions, t.LeavesTimers
    simp only [actions, walk, List.forall_mem_cons]
    exact ⟨hquiet _ Operation.noConfusion Operation.noConfusion rfl,
      hquiet _ Operation.noConfusion Operation.noConfusion rfl,
      hquiet _ Operation.noConfusion Operation.noConfusion rfl,
      hquiet _ Operation.noConfusion Operation.noConfusion rfl,
      hquiet _ Operation.noConfusion Operation.noConfusion rfl,
      hstep _ rfl, fun _ hnone => absurd hnone List.not_mem_nil⟩
  have hcount : (fading.walk actions).countP Moment.countsDown = 2 := rfl
  obtain ⟨hdelay, hsound, htold, -⟩ := timers_count_down fading hleaves
  rw [hcount] at hdelay hsound htold
  exact ⟨hleaves, hdelay, hsound, htold⟩

end Machine

end Chip8
