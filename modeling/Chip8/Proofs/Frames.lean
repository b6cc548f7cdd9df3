import Chip8.Proofs.FatalFault
import Chip8.Proofs.KeyWait

/-!
# Frames as runs

What the runner does with its machine in a frame is what a host can do: several steps and a tick,
and then, if none of the steps has failed, the delivery of the key. So whatever is known of runs is
known of the runner.

* `Session.frameActions` are the actions of a frame, and `Session.actions` those of several;
  `machine_frame` and `machine_after` say that these are what happens to the machine.
* `Session.frames_succ_last` takes off the last of several frames, and `Session.output` is what
  they have written.
* `Session.Sound` is what holds between the frames, and `Session.Sound.after` that it does.
* `Session.Sound.fatal_of_mem_notices` is about the fault that ends a run.
* `run_of_start` is what a whole run leaves on the terminal.
-/

namespace Chip8

namespace Runner.Session

/-! ## One frame -/

/-- What the machine looks at in the next frame: the dice are those that have not been drawn. -/
def around (s : Session) : Surroundings :=
  s.surroundings.drop s.drawn

/-- The report of the steps and the tick of the next frame. -/
def stepsReport (s : Session) : Report Unit :=
  s.machine.multistep s.around s.pace.next.1

/-- The delivery of the key in the next frame, if there is a key and none of the steps fails. -/
def deliveries (s : Session) : List Action :=
  match s.stepsReport.answer, s.settings.key with
  | .ok (), some key => [⟨s.around, .deliverKey key⟩]
  | _, _ => []

/-- The actions of the next frame. -/
def frameActions (s : Session) : List Action :=
  ⟨s.around, .multistep s.pace.next.1⟩ :: s.deliveries

/-- What the machine does in the next frame. -/
def history (s : Session) : History :=
  s.machine.run s.frameActions

/-- The answer to the next frame. -/
def answer (s : Session) : Except Fault Unit :=
  (s.advance s.pace.next.1).answer

/-- The steps, the tick and the delivery of a frame are its actions. -/
theorem history_advance (s : Session) : (s.advance s.pace.next.1).history = s.history := by
  have hsteps : s.machine.act ⟨s.around, .multistep s.pace.next.1⟩ =
      s.stepsReport.map fun _ => none := rfl
  have hadvance : s.advance s.pace.next.1 =
      match s.stepsReport.answer, s.settings.key with
      | .ok (), some key =>
        let delivery := s.stepsReport.machine.deliverKey key
        { delivery.map fun _ => () with
          events := s.stepsReport.events ++ delivery.events
          trace := s.stepsReport.trace ++ delivery.trace }
      | _, _ => s.stepsReport := rfl
  rw [history, frameActions, deliveries, Machine.run_cons, hsteps, hadvance]
  generalize s.stepsReport = r
  obtain ⟨answer, machine, events, trace⟩ := r
  cases answer with
  | error fault => simp [Report.history, Report.map, History.append]
  | ok =>
    cases s.settings.key with
    | none => simp [Report.history, Report.map, History.append]
    | some key =>
      simp only [Machine.run_singleton]
      rfl

theorem machine_advance (s : Session) :
    (s.advance s.pace.next.1).machine = s.history.machine :=
  congrArg History.machine s.history_advance

theorem events_advance (s : Session) :
    (s.advance s.pace.next.1).events = s.history.events :=
  congrArg History.events s.history_advance

theorem trace_advance (s : Session) :
    (s.advance s.pace.next.1).trace = s.history.trace :=
  congrArg History.trace s.history_advance

/-- The session after the next frame, apart from whether the screen has been shown and whether a
fault has ended the run. -/
def advanced (s : Session) : Session :=
  { s with
    machine := s.history.machine
    pace := s.pace.next.2
    drawn := s.drawn + s.pace.next.1
    bell := s.history.events.foldl Bell.hear s.bell
    dirty := s.dirty || s.history.events.any changesScreen }

/-- The bells that are rung in the next frame. -/
def bells (s : Session) : List Notice :=
  List.replicate (s.advanced.bell.rings - s.bell.rings) .bell

/-- A frame that fails is the last one, and its fault is reported. -/
theorem frame_of_error {s : Session} {fault : Fault} (h : s.answer = .error fault) :
    s.frame =
      { session := { s.advanced with ended := true }
        shown := s.history.trace.map .trace
        notices := s.bells ++ [.report fault s.history.machine.pc s.history.machine.fetch] } := by
  have hadvance : (s.advance s.pace.next.1).answer = .error fault := h
  unfold frame
  simp only [hadvance, bells, advanced, machine_advance, events_advance, trace_advance]

/-- After a frame that comes out well the screen is shown, if the session is watched and the screen
has changed since it was shown. -/
theorem frame_of_ok {s : Session} (h : s.answer = .ok ()) :
    s.frame =
      { session := { s.advanced with dirty := !s.settings.watch && s.advanced.dirty }
        shown := s.history.trace.map .trace ++
          if s.settings.watch && s.advanced.dirty then [.screen s.history.machine.screen] else []
        notices := s.bells } := by
  have hadvance : (s.advance s.pace.next.1).answer = .ok () := h
  unfold frame
  simp only [hadvance, bells, advanced, machine_advance, events_advance, trace_advance]
  cases s.settings.watch with
  | false => simp
  | true =>
    simp only [Bool.true_and, Bool.not_true, Bool.false_and]
    split
    · rfl
    · rename_i hclean
      rw [Bool.eq_false_iff.2 hclean, List.append_nil]

theorem machine_frame (s : Session) : s.frame.session.machine = s.history.machine := by
  cases h : s.answer with
  | error fault => rw [frame_of_error h]; rfl
  | ok => rw [frame_of_ok h]; rfl

theorem settings_frame (s : Session) : s.frame.session.settings = s.settings := by
  cases h : s.answer with
  | error fault => rw [frame_of_error h]; rfl
  | ok => rw [frame_of_ok h]; rfl

theorem pace_frame (s : Session) : s.frame.session.pace = s.pace.next.2 := by
  cases h : s.answer with
  | error fault => rw [frame_of_error h]; rfl
  | ok => rw [frame_of_ok h]; rfl

/-- A fault is what ends a run. -/
theorem ended_frame {s : Session} (h : s.ended = false) :
    s.frame.session.ended = false ↔ s.answer = .ok () := by
  cases hanswer : s.answer with
  | error fault => simp [frame_of_error hanswer]
  | ok => simp [frame_of_ok hanswer, advanced, h]

/-! ## Several frames -/

/-- The session after `n` frames, or after the frame that fails. -/
def after (s : Session) (n : Nat) : Session :=
  (s.frames n).session

@[simp]
theorem after_zero (s : Session) : s.after 0 = s := rfl

/-- After a fault there are no more frames. -/
theorem frames_of_ended_after {s : Session} {n : Nat} (h : (s.after n).ended = true) :
    s.frames (n + 1) = s.frames n := by
  induction n generalizing s with
  | zero => exact frames_of_ended h 1
  | succ n ih =>
    cases hs : s.ended with
    | true => rw [frames_of_ended hs, frames_of_ended hs]
    | false =>
      have hrest : (s.frame.session.after n).ended = true := by
        rw [after, frames_succ hs] at h
        exact h
      simp only [frames_succ hs, ih hrest]

/-- **Some frames are all but the last one, and then that one**, unless a fault has ended the run
before. -/
theorem frames_succ_last {s : Session} {n : Nat} (h : (s.after n).ended = false) :
    s.frames (n + 1) =
      { session := (s.after n).frame.session
        shown := (s.frames n).shown ++ (s.after n).frame.shown
        notices := (s.frames n).notices ++ (s.after n).frame.notices } := by
  induction n generalizing s with
  | zero =>
    have hs : s.ended = false := h
    rw [frames_succ hs]
    simp
  | succ n ih =>
    cases hs : s.ended with
    | true =>
      rw [after, frames_of_ended hs] at h
      cases hs.symm.trans h
    | false =>
      have hafter : s.after (n + 1) = s.frame.session.after n := by
        rw [after, frames_succ hs]
        rfl
      rw [hafter] at h ⊢
      rw [frames_succ hs (n + 1)]
      simp only [ih h, frames_succ hs n, List.append_assoc]

theorem after_succ {s : Session} {n : Nat} (h : (s.after n).ended = false) :
    s.after (n + 1) = (s.after n).frame.session := by
  rw [after, frames_succ_last h]

theorem after_succ_of_ended {s : Session} {n : Nat} (h : (s.after n).ended = true) :
    s.after (n + 1) = s.after n := by
  rw [after, frames_of_ended_after h]
  rfl

theorem ended_after_of_succ {s : Session} {n : Nat} (h : (s.after (n + 1)).ended = false) :
    (s.after n).ended = false := by
  cases hn : (s.after n).ended with
  | false => rfl
  | true =>
    rw [after_succ_of_ended hn, hn] at h
    cases h

/-- What `n` frames have written to the standard output. -/
def output (s : Session) (n : Nat) : String :=
  String.join ((s.frames n).shown.map Shown.text)

theorem output_succ {s : Session} {n : Nat} (h : (s.after n).ended = false) :
    s.output (n + 1) = s.output n ++ String.join ((s.after n).frame.shown.map Shown.text) := by
  rw [output, frames_succ_last h, List.map_append, String.join_append]
  rfl

/-- What is written is never taken back. -/
theorem exists_output_eq_append (s : Session) {k n : Nat} (h : k ≤ n) :
    ∃ later, s.output n = s.output k ++ later := by
  induction h with
  | refl => exact ⟨"", String.append_empty.symm⟩
  | @step n _ ih =>
    obtain ⟨later, hlater⟩ := ih
    cases hn : (s.after n).ended with
    | true =>
      refine ⟨later, ?_⟩
      rw [← hlater, output, frames_of_ended_after hn]
      rfl
    | false =>
      refine ⟨later ++ String.join ((s.after n).frame.shown.map Shown.text), ?_⟩
      rw [output_succ hn, hlater, String.append_assoc]

/-- The actions of `n` frames, or of as many as there are before a fault. -/
def actions (s : Session) : Nat → List Action
  | 0 => []
  | n + 1 => s.actions n ++ if (s.after n).ended then [] else (s.after n).frameActions

/-- **The actions of the frames are what happens to the machine.** -/
theorem machine_after (s : Session) (n : Nat) :
    (s.after n).machine = (s.machine.run (s.actions n)).machine := by
  induction n with
  | zero => rfl
  | succ n ih =>
    rw [actions, Machine.run_append]
    show _ = ((s.machine.run (s.actions n)).machine.run _).machine
    rw [← ih]
    cases h : (s.after n).ended with
    | true => rw [after_succ_of_ended h]; rfl
    | false => rw [after_succ h, machine_frame]; rfl

/-- The moments of the next frame. -/
def frameMoments (s : Session) : List Moment :=
  s.machine.moments s.frameActions

/-- The moments of `n` frames, or of as many as there are before a fault. -/
def moments (s : Session) (n : Nat) : List Moment :=
  s.machine.moments (s.actions n)

theorem moments_succ {s : Session} {n : Nat} (h : (s.after n).ended = false) :
    s.moments (n + 1) = s.moments n ++ (s.after n).frameMoments := by
  rw [moments, actions, h, Machine.moments_append, ← machine_after]
  rfl

/-! ## Between the frames -/

/-- What holds of a session between its frames. -/
structure Sound (settings : Settings) (s : Session) : Prop where
  settings_eq : s.settings = settings
  regular : s.machine.Regular
  flags_eq : s.machine.flags = settings.flags
  key_le : ∀ key, settings.key = some key → key ≤ 0xf

theorem Sound.pause_eq {settings : Settings} {s : Session} (h : s.Sound settings) :
    s.machine.flags.pause = false :=
  congrArg Flags.pause h.flags_eq

/-- A frame is made of steps and a tick, and perhaps a key. -/
theorem operation_of_mem_frameActions {s : Session} {a : Action} (h : a ∈ s.frameActions) :
    (∃ n, a.operation = .multistep n) ∨ ∃ key, a.operation = .deliverKey key := by
  rcases List.mem_cons.1 h with rfl | h
  · exact .inl ⟨_, rfl⟩
  · unfold deliveries at h
    split at h
    · obtain rfl := List.mem_singleton.1 h
      exact .inr ⟨_, rfl⟩
    · exact absurd h List.not_mem_nil

theorem Sound.frame {settings : Settings} {s : Session} (h : s.Sound settings) :
    s.frame.session.Sound settings where
  settings_eq := by rw [settings_frame, h.settings_eq]
  regular := by
    rw [machine_frame]
    exact h.regular.run _
  flags_eq := by
    rw [machine_frame, ← h.flags_eq]
    refine s.machine.flags_run fun a ha flags hflags => ?_
    rcases operation_of_mem_frameActions ha with ⟨n, ho⟩ | ⟨key, ho⟩
    · rw [ho] at hflags
      cases hflags
    · rw [ho] at hflags
      cases hflags
  key_le := h.key_le

/-- What every frame keeps holds after some frames. -/
theorem after_induction {P : Session → Prop} {s : Session} (start : P s)
    (next : ∀ s : Session, s.ended = false → P s → P s.frame.session) (n : Nat) :
    P (s.after n) := by
  induction n with
  | zero => exact start
  | succ n ih =>
    cases h : (s.after n).ended with
    | true => rw [after_succ_of_ended h]; exact ih
    | false => rw [after_succ h]; exact next _ h ih

theorem Sound.after {settings : Settings} {s : Session} (h : s.Sound settings) (n : Nat) :
    (s.after n).Sound settings :=
  after_induction h (fun _ _ hs => hs.frame) n

/-- The delivery of a key that exists does not fail, so a frame fails if one of its steps does. -/
theorem Sound.answer_eq {settings : Settings} {s : Session} (h : s.Sound settings) :
    s.answer = s.stepsReport.answer := by
  have hanswer : s.answer = (match s.stepsReport.answer, s.settings.key with
      | .ok (), some key =>
        let delivery := s.stepsReport.machine.deliverKey key
        { delivery.map fun _ => () with
          events := s.stepsReport.events ++ delivery.events
          trace := s.stepsReport.trace ++ delivery.trace }
      | _, _ => s.stepsReport : Report Unit).answer := rfl
  rw [hanswer, h.settings_eq]
  split
  · rename_i key hok hkey
    rw [hok]
    have hle := h.key_le key hkey
    cases hstatus : s.stepsReport.machine.status with
    | running => rw [Machine.deliverKey_of_running hstatus hle]; rfl
    | waiting x => rw [Machine.deliverKey_of_waiting hstatus hle]; rfl
  · rfl

theorem machine_history_of_no_key {s : Session} (h : s.settings.key = none) :
    s.history.machine = s.stepsReport.machine := by
  have hnone : s.deliveries = [] := by
    rw [deliveries, h]
    cases s.stepsReport.answer <;> rfl
  rw [history, frameActions, hnone, Machine.run_singleton]
  rfl

theorem machine_history_of_key {s : Session} {key : UInt8} (h : s.settings.key = some key)
    (hok : s.stepsReport.answer = .ok ()) :
    s.history.machine = (s.stepsReport.machine.deliverKey key).machine := by
  have hkey : s.deliveries = [⟨s.around, .deliverKey key⟩] := by
    rw [deliveries, h, hok]
  rw [history, frameActions, hkey, Machine.run_cons]
  exact congrArg History.machine (Machine.run_singleton _ _)

theorem machine_history_of_error {s : Session} {fault : Fault}
    (h : s.stepsReport.answer = .error fault) : s.history.machine = s.stepsReport.machine := by
  have hnone : s.deliveries = [] := by rw [deliveries, h]
  rw [history, frameActions, hnone, Machine.run_singleton]
  rfl

/-- The moments of a frame: those of the steps and the tick, and that of the delivery. -/
theorem frameMoments_eq (s : Session) :
    s.frameMoments = s.machine.walk (s.machine.stepSingles s.around s.pace.next.1) ++
      s.stepsReport.machine.moments s.deliveries := by
  rw [frameMoments, frameActions, Machine.moments_cons]
  rfl

theorem mem_moments_deliveries {s : Session} {t : Moment}
    (h : t ∈ s.stepsReport.machine.moments s.deliveries) :
    ∃ key, t.action.operation = .deliverKey key := by
  unfold deliveries at h
  split at h
  · obtain rfl := List.mem_singleton.1 h
    exact ⟨_, rfl⟩
  · exact absurd h List.not_mem_nil

/-! ## Faults -/

/-- **A frame that fails leaves the machine before the instruction that fails.** -/
theorem Sound.fatal_of_answer {settings : Settings} {s : Session} (h : s.Sound settings)
    {fault : Fault} (herror : s.answer = .error fault) : s.history.machine.Fatal fault := by
  rw [h.answer_eq] at herror
  obtain ⟨k, hk, hfirst⟩ := Machine.exists_firstFault_of_multistep herror
  have hmachine : s.stepsReport.machine = _ := (Machine.multistep_of_firstFault hk hfirst).2.1
  rw [machine_history_of_error herror, hmachine]
  exact ((Machine.step_eq_error_iff (h.regular.run _) _ _ fault).1 hfirst.2).2

theorem report_not_mem_bells (s : Session) (fault : Fault) (pc word : UInt16) :
    .report fault pc word ∉ s.bells := by
  intro h
  cases List.eq_of_mem_replicate h

/-- What is reported of a frame is a fault at the machine that it leaves. -/
theorem Sound.fatal_of_mem_notices_frame {settings : Settings} {s : Session} (h : s.Sound settings)
    {fault : Fault} {pc word : UInt16} (hmem : .report fault pc word ∈ s.frame.notices) :
    let m := s.frame.session.machine
    s.frame.session.ended = true ∧ m.Fatal fault ∧ pc = m.pc ∧ word = m.fetch := by
  cases hanswer : s.answer with
  | ok =>
    rw [frame_of_ok hanswer] at hmem
    exact absurd hmem (s.report_not_mem_bells fault pc word)
  | error fault' =>
    rw [frame_of_error hanswer] at hmem ⊢
    rcases List.mem_append.1 hmem with hbell | hreport
    · exact absurd hbell (s.report_not_mem_bells fault pc word)
    · obtain ⟨rfl, rfl, rfl⟩ := Notice.report.inj (List.mem_singleton.1 hreport)
      exact ⟨rfl, h.fatal_of_answer hanswer, rfl, rfl⟩

/-- **What is reported of a run is the fault that has ended it**, with the place of the instruction
that is bound to end in it. -/
theorem Sound.fatal_of_mem_notices {settings : Settings} {s : Session} (h : s.Sound settings)
    {n : Nat} {fault : Fault} {pc word : UInt16}
    (hmem : .report fault pc word ∈ (s.frames n).notices) :
    let m := (s.after n).machine
    (s.after n).ended = true ∧ m.Fatal fault ∧ pc = m.pc ∧ word = m.fetch := by
  induction n with
  | zero => exact absurd hmem List.not_mem_nil
  | succ n ih =>
    cases hn : (s.after n).ended with
    | true =>
      rw [frames_of_ended_after hn] at hmem
      rw [after_succ_of_ended hn]
      exact ih hmem
    | false =>
      rw [frames_succ_last hn] at hmem
      rw [after_succ hn]
      rcases List.mem_append.1 hmem with hbefore | hlast
      · cases hn.symm.trans (ih hbefore).1
      · exact (h.after n).fatal_of_mem_notices_frame hlast

end Runner.Session

/-! ## The beginning -/

namespace Runner

/-- A session in which nothing has been done yet but to load the program. -/
structure Session.Begins (settings : Settings) (rom : List UInt8) (s : Session) : Prop where
  settings_eq : s.settings = settings
  machine_eq : s.machine = ((Machine.new settings.flags).load rom).machine
  pace_eq : s.pace = { clock := settings.clock }
  dirty_eq : s.dirty = true
  ended_eq : s.ended = false

/-- The keypad with the key of the settings held down, if there is one. -/
def keypadOf (settings : Settings) : Except Fault Keypad :=
  match settings.key with
  | none => pure Keypad.idle
  | some key => (Keypad.idle.press key.toNat).map Prod.snd

theorem exists_keypadOf_iff (settings : Settings) :
    (∃ keypad, keypadOf settings = .ok keypad) ↔ ∀ key, settings.key = some key → key ≤ 0xf := by
  unfold keypadOf
  cases settings.key with
  | none => exact iff_of_true ⟨_, rfl⟩ nofun
  | some key =>
    have hkey : (∀ k, some key = some k → k ≤ 0xf) ↔ key.toNat < 16 := by
      simp only [Option.some.injEq, forall_eq', UInt8.le_iff_toNat_le, UInt8.reduceToNat]
      omega
    rw [hkey]
    rcases Nat.lt_or_ge key.toNat 16 with hlt | hle
    · obtain ⟨keypad, hset, -⟩ := Keypad.idle.set_of_lt hlt true
      exact iff_of_true ⟨keypad, by simp only [Keypad.press, hset]; rfl⟩ hlt
    · have hset := Keypad.idle.set_of_le hle true
      refine iff_of_false ?_ (Nat.not_lt.2 hle)
      rintro ⟨keypad, hkeypad⟩
      simp only [Keypad.press, hset] at hkeypad
      cases hkeypad

/-- The session that begins with a loaded machine and a keypad. -/
def begun (settings : Settings) (dice : Nat → UInt8) (loaded : Report Unit) (keypad : Keypad) :
    Session where
  settings := settings
  machine := loaded.machine
  surroundings := ⟨keypad, dice⟩
  pace := { clock := settings.clock }
  bell := loaded.events.foldl Bell.hear {}
  dirty := loaded.events.any changesScreen

/-- The program is loaded first, and then the key is held. -/
theorem start_eq (settings : Settings) (dice : Nat → UInt8)
    (file : Except FileFault (List UInt8)) :
    start settings dice file =
      let loaded := (Machine.new settings.flags).loadFile file
      match loaded.answer, keypadOf settings with
      | .error fault, _ => .error fault
      | .ok (), .error fault => .error fault
      | .ok (), .ok keypad => .ok (begun settings dice loaded keypad) := by
  unfold start keypadOf
  dsimp only
  cases ((Machine.new settings.flags).loadFile file).answer with
  | error fault => rfl
  | ok =>
    cases settings.key with
    | none => rfl
    | some key =>
      dsimp only
      cases Keypad.idle.press key.toNat <;> rfl

theorem begins_begun (settings : Settings) (dice : Nat → UInt8) {rom : List UInt8}
    (hrom : rom.length ≤ Region.program.size) (keypad : Keypad) :
    (begun settings dice ((Machine.new settings.flags).load rom) keypad).Begins settings rom where
  settings_eq := rfl
  machine_eq := rfl
  pace_eq := rfl
  dirty_eq := by
    rw [begun, Machine.load_of_le _ hrom]
    rfl
  ended_eq := rfl

/-- **When a session begins**: the program can be read and is small enough, and the key exists. -/
theorem exists_start_iff {settings : Settings} {dice : Nat → UInt8}
    {file : Except FileFault (List UInt8)} :
    (∃ s, start settings dice file = .ok s) ↔
      ∃ rom, file = .ok rom ∧ rom.length ≤ Region.program.size ∧
        ∀ key, settings.key = some key → key ≤ 0xf := by
  rw [start_eq, ← exists_keypadOf_iff]
  cases file with
  | error fault => simp [Machine.loadFile, Report.refused]
  | ok rom =>
    have hload := (Machine.new settings.flags).answer_load_eq_ok_iff rom
    simp only [Machine.loadFile]
    cases hanswer : ((Machine.new settings.flags).load rom).answer with
    | error fault =>
      have hlarge : ¬rom.length ≤ Region.program.size := by
        rw [← hload, hanswer]
        nofun
      simp [hlarge]
    | ok =>
      have hsmall := hload.1 hanswer
      cases keypadOf settings <;> simp [hsmall]

/-- What a session begins with. -/
theorem begins_of_start {settings : Settings} {dice : Nat → UInt8}
    {file : Except FileFault (List UInt8)} {s : Session} (h : start settings dice file = .ok s) :
    ∃ rom, file = .ok rom ∧ rom.length ≤ Region.program.size ∧
      (∀ key, settings.key = some key → key ≤ 0xf) ∧ s.Begins settings rom := by
  obtain ⟨rom, rfl, hrom, hkey⟩ := exists_start_iff.1 ⟨s, h⟩
  refine ⟨rom, rfl, hrom, hkey, ?_⟩
  have hanswer := ((Machine.new settings.flags).answer_load_eq_ok_iff rom).2 hrom
  rw [start_eq] at h
  simp only [Machine.loadFile, hanswer] at h
  split at h
  · cases h
  · cases h
  · obtain rfl := Except.ok.inj h
    exact begins_begun settings dice hrom _

theorem sound_of_start {settings : Settings} {dice : Nat → UInt8}
    {file : Except FileFault (List UInt8)} {s : Session} (h : start settings dice file = .ok s) :
    s.Sound settings := by
  obtain ⟨rom, -, hrom, hkey, hbegins⟩ := begins_of_start h
  refine ⟨hbegins.settings_eq, ?_, ?_, hkey⟩
  · rw [hbegins.machine_eq]
    exact (Machine.regular_new settings.flags).of_change (Machine.change_load _ rom)
  · rw [hbegins.machine_eq, Machine.load_new _ hrom]
    rfl

/-- What a run leaves on the terminal, once it has begun. -/
theorem run_of_start {settings : Settings} {dice : Nat → UInt8}
    {file : Except FileFault (List UInt8)} {s : Session} (hs : start settings dice file = .ok s) :
    let m := (s.after settings.frames).machine
    run settings dice file =
      { stdout := s.output settings.frames ++ m.screen.brailleText ++
          if settings.debug then m.dump else ""
        stderr := String.join ((s.frames settings.frames).notices.map Notice.text) } := by
  intro m
  have hdebug : m.flags.debug = settings.debug :=
    congrArg Flags.debug ((sound_of_start hs).after settings.frames).flags_eq
  have hfinale : String.join ((s.after settings.frames).finale.map Shown.text) =
      m.screen.brailleText ++ if settings.debug then m.dump else "" := by
    rw [Session.finale, hdebug]
    cases settings.debug <;> simp [m, Shown.text]
  rw [run, hs]
  simp only [List.map_append, String.join_append, String.append_assoc]
  rw [← hfinale]
  rfl

end Runner

end Chip8
