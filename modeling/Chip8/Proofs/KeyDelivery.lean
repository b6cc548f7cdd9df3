import Chip8.Proofs.Frames

/-!
# A key that is held down

The runner delivers its key at the end of every frame. A program that has asked for one in the frame
waits for the rest of it and no longer. Without a key it waits to the end of the run, and nothing
but the timers goes on.

* `Machine.multistep_of_executes_awaitKey` says what is left of several steps behind the
  instruction that waits for a key.
* `Session.of_executes_awaitKey` takes a frame apart at that instruction.
* `Session.Sound.delivered_frame` is about a frame with a key, and `Session.Sound.frozen_of_waiting`
  about all the frames without one.
* `Runner.keys_delivered` puts these together.
-/

namespace Chip8

/-! ## Several steps -/

namespace Machine

theorem isWaiting_of_mem_walk_stepSingles {m : Machine} (h : m.isWaiting = true) {s : Surroundings}
    {n : Nat} : ∀ u ∈ m.walk (m.stepSingles s n), u.machine.isWaiting = true := by
  refine fun u hu => (forall_mem_walk (P := fun m => m.isWaiting = true) h ?_ u hu).1
  intro m' a ha hwaits
  have hidle : a.operation.IsIdle := by
    rcases mem_stepSingles ha with ho | ho
    · rw [ho]
      trivial
    · rw [ho]
      trivial
  rw [(act_of_waiting hwaits hidle).2.1]
  exact hwaits

/-- **Behind the instruction that waits for a key** no step executes anything, none fails, and only
the tick is left. -/
theorem multistep_of_executes_awaitKey {m : Machine} {s : Surroundings} {n : Nat}
    {before later : List Moment} {t : Moment} {x : Fin 16} (ht : t.Executes (.awaitKey x))
    (heq : m.walk (m.stepSingles s n) = before ++ t :: later) :
    (∀ u ∈ later, u.executes = false) ∧ (m.multistep s n).answer = .ok () ∧
      (m.multistep s n).machine = t.report.machine.tick.machine := by
  -- several steps are taken apart one by one, so that `t` comes first at some time
  refine multistep_induction
    (P := fun _ _ ts r => ∀ before, ts = before ++ t :: later →
      (∀ u ∈ later, u.executes = false) ∧ r.answer = .ok () ∧
        r.machine = t.report.machine.tick.machine)
    (fun m s before heq => ?tick) (fun n hr before heq => ?failed)
    (fun hr ih before heq => ?stepped) m s n before heq
  case tick =>
    have hmem : t ∈ [Moment.mk m ⟨s, .tick⟩] := by simp [heq]
    obtain rfl := List.mem_singleton.1 hmem
    cases ht.step
  case failed m s _ =>
    have hmem : t ∈ [Moment.mk m ⟨s, .step⟩] := by simp [heq]
    obtain rfl := List.mem_singleton.1 hmem
    cases (congrArg (Except.map _) hr).symm.trans ht.answer
  case stepped m s n =>
    cases before with
    | nil =>
      obtain ⟨rfl, rfl⟩ := List.cons.inj heq
      have hwaits : (m.step s.keypad (s.dice 0)).machine.isWaiting = true := by
        rw [isWaiting_iff]
        exact ⟨x, congrArg status ht.machine_eq⟩
      refine ⟨fun u hu => ?_, ?_⟩
      · simp [Moment.executes, isWaiting_of_mem_walk_stepSingles hwaits u hu]
      · rw [multistep_of_waiting hwaits]
        exact ⟨answer_tick _, rfl⟩
    | cons u before => exact ih before (List.cons.inj heq).2

end Machine

theorem countP_le_one {α : Type} {p : α → Bool} {l : List α}
    (h : ∀ before x later, l = before ++ x :: later → p x = true → ∀ y ∈ later, p y = false) :
    l.countP p ≤ 1 := by
  induction l with
  | nil => simp
  | cons a l ih =>
    cases ha : p a with
    | false =>
      rw [List.countP_cons_of_neg (by simp [ha])]
      refine ih fun before x later heq => h (a :: before) x later ?_
      rw [heq, List.cons_append]
    | true =>
      have hnone : l.countP p = 0 :=
        List.countP_eq_zero.2 fun y hy => by simp [h [] a l rfl ha y hy]
      simp [List.countP_cons_of_pos ha, hnone]

theorem Moment.executes_of_startsWaiting {t : Moment} (h : t.startsWaiting = true) :
    t.executes = true := by
  obtain ⟨x, hx⟩ := t.startsWaiting_iff.1 h
  exact t.executes_iff.2 ⟨_, hx⟩

namespace Runner

namespace Session

/-! ## One frame -/

/-- A frame behind the instruction that waits for a key: the key is all that is still to come. -/
theorem of_executes_awaitKey {s : Session} {before later : List Moment} {t : Moment} {x : Fin 16}
    (ht : t.Executes (.awaitKey x)) (heq : s.frameMoments = before ++ t :: later) :
    (∀ u ∈ later, u.executes = false) ∧ s.stepsReport.answer = .ok () ∧
      s.stepsReport.machine = t.report.machine.tick.machine := by
  have hno : ∀ u ∈ s.stepsReport.machine.moments s.deliveries, u.action.operation ≠ .step := by
    intro u hu hstep
    obtain ⟨key, hkey⟩ := mem_moments_deliveries hu
    rw [hkey] at hstep
    cases hstep
  rw [frameMoments_eq] at heq
  rcases List.append_eq_append_iff.1 heq with ⟨as, -, hrest⟩ | ⟨bs, hwalk, hrest⟩
  · exact absurd ht.step (hno t (by simp [hrest]))
  · cases bs with
    | nil =>
      have hmem : t ∈ [] ++ s.stepsReport.machine.moments s.deliveries := by simp [← hrest]
      exact absurd ht.step (hno t hmem)
    | cons u bs =>
      obtain ⟨rfl, rfl⟩ := List.cons.inj hrest
      obtain ⟨hsilent, hreport⟩ := Machine.multistep_of_executes_awaitKey ht hwalk
      refine ⟨fun u hu => ?_, hreport⟩
      rcases List.mem_append.1 hu with hu | hu
      · exact hsilent u hu
      · simp [Moment.executes, hno u hu]

theorem countP_startsWaiting_frameMoments_le (s : Session) :
    s.frameMoments.countP Moment.startsWaiting ≤ 1 := by
  refine countP_le_one fun before t later heq ht u hu => ?_
  obtain ⟨x, hx⟩ := t.startsWaiting_iff.1 ht
  have hsilent := (of_executes_awaitKey hx heq).1 u hu
  cases hstarts : u.startsWaiting with
  | false => rfl
  | true => cases (Moment.executes_of_startsWaiting hstarts).symm.trans hsilent

section

variable {settings : Settings} {s : Session} (h : s.Sound settings)

include h

/-! ## With a key -/

/-- **With a key no machine waits between the frames.** -/
theorem Sound.running_frame {key : UInt8} (hkey : settings.key = some key)
    (hok : s.answer = .ok ()) : s.frame.session.machine.status = .running := by
  rw [machine_frame, machine_history_of_key (h.settings_eq ▸ hkey) (h.answer_eq ▸ hok)]
  cases hstatus : s.stepsReport.machine.status with
  | running =>
    rw [Machine.deliverKey_of_running hstatus (h.key_le key hkey)]
    exact hstatus
  | waiting x => rw [Machine.deliverKey_of_waiting hstatus (h.key_le key hkey)]

/-- **The key arrives in the frame in which it is asked for.** -/
theorem Sound.delivered_frame {key : UInt8} (hkey : settings.key = some key)
    {before later : List Moment} {t : Moment} {x : Fin 16} (ht : t.Executes (.awaitKey x))
    (heq : s.frameMoments = before ++ t :: later) :
    let m := s.frame.session.machine
    m.register x = key ∧ m.pc = Word.wrap (t.machine.pc.toNat + 2) := by
  obtain ⟨-, hok, hmachine⟩ := of_executes_awaitKey ht heq
  have hmem : t ∈ s.machine.moments s.frameActions := by
    rw [← frameMoments, heq]
    simp
  have hregular := h.regular.of_mem_moments hmem
  obtain ⟨hw, -⟩ := Machine.report_of_executes_awaitKey hregular ht
  have hstatus : s.stepsReport.machine.status = .waiting x := by
    rw [hmachine, Machine.machine_tick, hw]
  have hpc : s.stepsReport.machine.pc = t.machine.pc := by
    rw [hmachine, Machine.machine_tick, hw]
  rw [machine_frame, machine_history_of_key (h.settings_eq ▸ hkey) hok,
    Machine.deliverKey_of_waiting hstatus (h.key_le key hkey), hpc]
  refine ⟨?_, rfl⟩
  exact (Machine.register_withRegister _ x x key).trans (if_pos rfl)

/-! ## Without a key -/

variable (hkey : settings.key = none)

include hkey

/-- **Without a key a machine that waits goes on waiting**, and a frame is a tick. -/
theorem Sound.frame_of_waiting (hended : s.ended = false) (hw : s.machine.isWaiting = true) :
    s.frame.session.ended = false ∧ s.frame.session.machine = s.machine.tick.machine := by
  have hsteps : s.stepsReport = s.machine.tick := Machine.multistep_of_waiting hw _ _
  rw [ended_frame hended, h.answer_eq, machine_frame,
    machine_history_of_no_key (h.settings_eq ▸ hkey), hsteps]
  exact ⟨Machine.answer_tick _, rfl⟩

theorem Sound.waiting_frame (hended : s.ended = false) {t : Moment} {x : Fin 16}
    (hmem : t ∈ s.frameMoments) (ht : t.Executes (.awaitKey x)) :
    s.frame.session.ended = false ∧ s.frame.session.machine.isWaiting = true := by
  obtain ⟨before, later, heq⟩ := List.append_of_mem hmem
  obtain ⟨-, hok, hmachine⟩ := of_executes_awaitKey ht heq
  refine ⟨(ended_frame hended).2 (h.answer_eq.trans hok), ?_⟩
  rw [machine_frame, machine_history_of_no_key (h.settings_eq ▸ hkey), hmachine,
    Machine.machine_tick, Machine.isWaiting_iff]
  exact ⟨x, congrArg Machine.status ht.machine_eq⟩

theorem Sound.frozen_of_waiting {k n : Nat} (hn : k ≤ n) (hended : (s.after k).ended = false)
    (hw : (s.after k).machine.isWaiting = true) :
    (s.after n).ended = false ∧
      (s.after n).machine =
        { (s.after k).machine with timers := (s.after n).machine.timers } := by
  -- every frame is a tick, and that leaves the machine waiting
  induction hn with
  | refl => exact ⟨hended, rfl⟩
  | @step n _ ih =>
    obtain ⟨hlast, hmachine⟩ := ih
    have hstill : (s.after n).machine.isWaiting = true := by
      rw [hmachine]
      exact hw
    obtain ⟨hnext, htick⟩ := (h.after n).frame_of_waiting hkey hlast hstill
    rw [after_succ hlast]
    refine ⟨hnext, ?_⟩
    rw [htick, Machine.machine_tick, hmachine]

end

end Session

/-! ## The theorem -/

/-- **A key that is held down is delivered when it is asked for.** Let a run begin.

* With a key, which is then one that exists: after every frame that comes out well the machine runs.
  At most one instruction of the frame waits for a key, nothing is executed in the frame behind it,
  and in the end the key is in its register and the program counter is behind it.
* Without a key: once an instruction waits for one, no later frame fails, there is nothing to
  report, and nothing changes but the timers.
* In neither case is it ever reported that a key does not exist. -/
theorem keys_delivered {settings : Settings} {dice : Nat → UInt8}
    {file : Except FileFault (List UInt8)} {s : Session} (hs : start settings dice file = .ok s) :
    (∀ key, settings.key = some key → key ≤ 0xf ∧
      ∀ k, (s.after (k + 1)).ended = false →
        let moments := (s.after k).frameMoments
        let after := (s.after (k + 1)).machine
        after.status = .running ∧ moments.countP Moment.startsWaiting ≤ 1 ∧
        ∀ before t later x, moments = before ++ t :: later → t.Executes (.awaitKey x) →
          (∀ u ∈ later, u.executes = false) ∧ after.register x = key ∧
            after.pc = Word.wrap (t.machine.pc.toNat + 2)) ∧
    (settings.key = none → ∀ k, (s.after k).ended = false →
      (∃ t ∈ (s.after k).frameMoments, ∃ x, t.Executes (.awaitKey x)) → ∀ n, k < n →
        (s.after n).ended = false ∧
        (s.after n).machine =
          { (s.after (k + 1)).machine with timers := (s.after n).machine.timers } ∧
        ∀ fault pc word, .report fault pc word ∉ (s.frames n).notices) ∧
    ∀ n key pc word, .report (.invalidKey key) pc word ∉ (s.frames n).notices := by
  have hsound := sound_of_start hs
  refine ⟨fun key hkey => ⟨hsound.key_le key hkey, fun k hk => ?_⟩, fun hkey k hk hasks n hn => ?_,
    fun n key pc word hmem => ?_⟩
  · have hlast := Session.ended_after_of_succ hk
    rw [Session.after_succ hlast] at hk ⊢
    have hok := (Session.ended_frame hlast).1 hk
    refine ⟨(hsound.after k).running_frame hkey hok,
      (s.after k).countP_startsWaiting_frameMoments_le, fun before t later x heq ht => ?_⟩
    exact ⟨(Session.of_executes_awaitKey ht heq).1, (hsound.after k).delivered_frame hkey ht heq⟩
  · obtain ⟨t, hmem, x, ht⟩ := hasks
    obtain ⟨hended, hwaits⟩ := (hsound.after k).waiting_frame hkey hk hmem ht
    rw [← Session.after_succ hk] at hended hwaits
    obtain ⟨hfine, hfrozen⟩ := hsound.frozen_of_waiting hkey hn hended hwaits
    refine ⟨hfine, hfrozen, fun fault pc word hreport => ?_⟩
    cases hfine.symm.trans (hsound.fatal_of_mem_notices hreport).1
  · -- only an instruction can be at fault
    cases (hsound.fatal_of_mem_notices hmem).2.1

theorem keys_delivered_asking :
    let settings : Settings := { clock := 60, key := some 0xa }
    let dice : Nat → UInt8 := fun _ => 0
    let s := begun settings dice ((Machine.new settings.flags).load [0xf3, 0x0a])
      ⟨Keypad.idle.held.set 0xa true⟩
    start settings dice (.ok [0xf3, 0x0a]) = .ok s ∧ (s.after 1).ended = false ∧
      (s.after 1).machine.status = .running ∧ (s.after 1).machine.register 3 = 0xa ∧
      (s.after 1).machine.pc = 0x202 := by
  intro settings dice s
  have hs : start settings dice (.ok [0xf3, 0x0a]) = .ok s := rfl
  have hended : (s.after 1).ended = false := by decide +kernel
  have hrom : s.machine.memory.HoldsOnly [0xf3, 0x0a] := Memory.holdsOnly_writeAll (by decide)
  have hfetch : s.machine.fetch = 0xf30a := Machine.fetch_of_holdsOnly (k := 0) hrom rfl (by decide)
  have hexecutes : Moment.Executes ⟨s.machine, s.around, .step⟩ (.awaitKey 3) :=
    (Moment.executes_of_execute ⟨rfl, rfl⟩ (by rw [hfetch]; rfl) rfl).1
  have hsteps : s.pace.next.1 = 1 := by decide
  obtain ⟨later, heq⟩ :
      ∃ later, s.frameMoments = [] ++ ⟨s.machine, s.around, .step⟩ :: later := by
    rw [Session.frameMoments_eq, hsteps]
    exact ⟨_, rfl⟩
  obtain ⟨hkey, -⟩ := keys_delivered hs
  obtain ⟨hrunning, -, hdelivered⟩ := (hkey 0xa rfl).2 0 hended
  obtain ⟨-, hregister, hpc⟩ := hdelivered [] _ later 3 heq hexecutes
  exact ⟨hs, hended, hrunning, hregister, hpc⟩

end Runner

end Chip8
