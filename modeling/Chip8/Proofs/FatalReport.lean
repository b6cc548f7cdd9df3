import Chip8.Proofs.Frames
import Chip8.Proofs.ListedProgram

/-!
# The report of a fault

When a fault ends a run, the runner looks at the machine once more to say where it happened. It
finds the instruction that failed: nothing has changed since, neither by that instruction nor by the
runner, and no countdown and no key has come in between.

* `Machine.failsAtLast_of_multistep` takes several steps apart of which the last one fails, and
  `Machine.isOk_of_multistep_ok` is about those that come out well.
* `Session.exists_frame_of_ended` finds the frame in which a fault has ended a run, and
  `Session.Sound.exists_failure` says what that leaves.
* `Fault.Names` says that a fault is about an instruction, and `Runner.fatal_report` that the fault
  is about the one that is reported.
-/

namespace Chip8

open Text CommandLine

/-! ## Moments that come out well -/

namespace Machine

theorem isOk_report_step {m : Machine} {s : Surroundings}
    (h : (m.step s.keypad (s.dice 0)).answer = .ok ()) :
    (Moment.report ⟨m, s, .step⟩).answer.isOk = true := by
  rw [Moment.report_step, Report.map, h]
  rfl

theorem isOk_report_tick (m : Machine) (s : Surroundings) :
    (Moment.report ⟨m, s, .tick⟩).answer.isOk = true := by
  rw [Moment.report_tick, Report.map, answer_tick]
  rfl

/-- Before some moment of a walk the machine has done what stands in front of it. -/
theorem machine_run_of_walk_eq {m : Machine} {as : List Action} {before later : List Moment}
    {t : Moment} (h : m.walk as = before ++ t :: later) :
    (m.run (before.map Moment.action)).machine = t.machine := by
  induction before generalizing m as with
  | nil =>
    cases as with
    | nil => cases h
    | cons a as =>
      obtain ⟨rfl, -⟩ := List.cons.inj h
      rfl
  | cons u before ih =>
    cases as with
    | nil => cases h
    | cons a as =>
      obtain ⟨rfl, hrest⟩ := List.cons.inj h
      exact ih hrest

theorem isOk_of_multistep_ok {m : Machine} {s : Surroundings} {n : Nat}
    (h : (m.multistep s n).answer = .ok ()) :
    ∀ t ∈ m.walk (m.stepSingles s n), t.report.answer.isOk = true := by
  refine multistep_induction
    (P := fun _ _ ts r => r.answer = .ok () → ∀ t ∈ ts, t.report.answer.isOk = true)
    (fun m s _ t ht => ?_) (fun _ hr hok => ?_) (fun hr ih hok t ht => ?_) m s n h
  · obtain rfl := List.mem_singleton.1 ht
    exact isOk_report_tick m s
  · cases hr.symm.trans hok
  · rcases List.mem_cons.1 ht with rfl | ht
    · exact isOk_report_step hr
    · exact ih hok t ht

theorem trace_step_of_error {m : Machine} {keypad : Keypad} {dice : UInt8} {fault : Fault}
    (h : (m.step keypad dice).answer = .error fault) : (m.step keypad dice).trace = m.nextLine := by
  refine trace_step (Classical.byContradiction fun hidle => ?_) keypad dice
  rw [step_of_idle (Classical.not_not.1 (mt m.isActive_iff.2 hidle))] at h
  cases h

/-- Some moments come out well but for the last one. That is a step which ends in a fault and has
written its line of the trace, and the history ends with the machine before it. -/
def FailsAtLast (fault : Fault) (ts : List Moment) (h : History) : Prop :=
  ∃ before around earlier,
    ts = before ++ [⟨h.machine, around, .step⟩] ∧
    (∀ t ∈ before, t.report.answer.isOk = true) ∧
    (h.machine.step around.keypad (around.dice 0)).answer = .error fault ∧
    h.trace = earlier ++ h.machine.nextLine

/-- **Several steps that fail end with a step that does.** -/
theorem failsAtLast_of_multistep {m : Machine} {s : Surroundings} {n : Nat} {fault : Fault}
    (h : (m.multistep s n).answer = .error fault) :
    FailsAtLast fault (m.walk (m.stepSingles s n)) (m.multistep s n).history := by
  refine multistep_induction
    (P := fun _ _ ts r => r.answer = .error fault → FailsAtLast fault ts r.history)
    (fun m s hf => ?tick) (fun {m s _} _ _ hf => ?failed) (fun {m s n} hr ih hf => ?stepped) m s n h
  case tick => cases (answer_tick m).symm.trans hf
  case failed =>
    have hmachine := (step_of_error hf).1
    have htrace := trace_step_of_error hf
    simp only [Report.history, hmachine, htrace]
    exact ⟨[], s, [], rfl, fun _ ht => absurd ht List.not_mem_nil, hf, rfl⟩
  case stepped =>
    obtain ⟨before, around, earlier, hwalk, hok, hfails, htrace⟩ := ih hf
    refine ⟨⟨m, s, .step⟩ :: before, around, (m.step s.keypad (s.dice 0)).trace ++ earlier, ?_,
      List.forall_mem_cons.2 ⟨isOk_report_step hr, hok⟩, hfails, ?_⟩
    · rw [hwalk]
      rfl
    · rw [List.append_assoc]
      exact congrArg (_ ++ ·) htrace

end Machine

namespace Runner

namespace Session

/-! ## Frames -/

/-- If a fault has ended a run, there is a frame in which it did, and the last one. -/
theorem exists_frame_of_ended {s : Session} (hs : s.ended = false) {n : Nat}
    (h : (s.after n).ended = true) :
    ∃ k fault, (s.after k).ended = false ∧ (s.after k).answer = .error fault ∧
      s.frames n = s.frames (k + 1) ∧ s.moments n = s.moments (k + 1) := by
  induction n with
  | zero => cases hs.symm.trans h
  | succ n ih =>
    cases hn : (s.after n).ended with
    | true =>
      obtain ⟨k, fault, hk, hanswer, hframes, hmoments⟩ := ih hn
      refine ⟨k, fault, hk, hanswer, (frames_of_ended_after hn).trans hframes, ?_⟩
      rw [← hmoments, moments, moments, actions, hn, if_pos rfl, List.append_nil]
    | false =>
      rw [after_succ hn] at h
      cases hanswer : (s.after n).answer with
      | error fault => exact ⟨n, fault, hn, hanswer, rfl, rfl⟩
      | ok =>
        rw [(ended_frame hn).2 hanswer] at h
        cases h

section

variable {settings : Settings} {s : Session} (h : s.Sound settings)

include h

theorem Sound.isOk_frame (hok : s.answer = .ok ()) :
    ∀ t ∈ s.frameMoments, t.report.answer.isOk = true := by
  intro t ht
  rw [frameMoments_eq] at ht
  rcases List.mem_append.1 ht with ht | ht
  · exact Machine.isOk_of_multistep_ok (h.answer_eq ▸ hok) t ht
  · -- the delivery is that of a key that exists
    unfold deliveries at ht
    split at ht
    · rename_i key _ hkey
      obtain rfl := List.mem_singleton.1 ht
      have hle := h.key_le key (h.settings_eq ▸ hkey)
      change ((s.stepsReport.machine.deliverKey key).map some).answer.isOk = true
      cases hstatus : s.stepsReport.machine.status with
      | running => rw [Machine.deliverKey_of_running hstatus hle]; rfl
      | waiting x => rw [Machine.deliverKey_of_waiting hstatus hle]; rfl
    · exact absurd ht List.not_mem_nil

theorem Sound.isOk_moments {n : Nat} (hn : (s.after n).ended = false) :
    ∀ t ∈ s.moments n, t.report.answer.isOk = true := by
  induction n with
  | zero => exact fun t ht => absurd ht List.not_mem_nil
  | succ n ih =>
    have hlast := ended_after_of_succ hn
    rw [after_succ hlast] at hn
    rw [moments_succ hlast]
    intro t ht
    rcases List.mem_append.1 ht with ht | ht
    · exact ih hlast t ht
    · exact (h.after n).isOk_frame ((ended_frame hlast).1 hn) t ht

theorem Sound.exists_notices_eq {n : Nat} (hn : (s.after n).ended = false) :
    ∃ rings, (s.frames n).notices = List.replicate rings .bell := by
  refine ⟨(s.frames n).notices.length, List.eq_replicate_iff.2 ⟨rfl, fun x hx => ?_⟩⟩
  cases x with
  | bell => rfl
  | report fault pc word => cases hn.symm.trans (h.fatal_of_mem_notices hx).1

theorem Sound.exists_notices_of_error {k : Nat} (hk : (s.after k).ended = false) {fault : Fault}
    (herror : (s.after k).answer = .error fault) :
    let m := (s.after k).history.machine
    ∃ rings, (s.frames (k + 1)).notices =
      List.replicate rings .bell ++ [.report fault m.pc m.fetch] := by
  intro m
  obtain ⟨rings, hrings⟩ := h.exists_notices_eq hk
  refine ⟨rings + ((s.after k).advanced.bell.rings - (s.after k).bell.rings), ?_⟩
  rw [frames_succ_last hk, frame_of_error herror, hrings, ← List.replicate_append_replicate,
    List.append_assoc]
  rfl

/-- **A frame that fails** does so in a step, which is the last thing that is done. -/
theorem Sound.failsAtLast_frame {fault : Fault} (herror : s.answer = .error fault) :
    Machine.FailsAtLast fault s.frameMoments s.history := by
  rw [h.answer_eq] at herror
  have hnone : s.deliveries = [] := by rw [deliveries, herror]
  have hhistory : s.history = s.stepsReport.history := by
    rw [history, frameActions, hnone, Machine.run_singleton]
    rfl
  have hnil : s.stepsReport.machine.moments [] = [] := rfl
  rw [frameMoments_eq, hnone, hhistory, hnil, List.append_nil]
  exact Machine.failsAtLast_of_multistep herror

/-- **What a run leaves that a fault has ended**: the machine before the step that fails, that step
as the last of its moments, the line of the trace for it, and the report of the fault. -/
theorem Sound.exists_failure {n : Nat} (hs : s.ended = false) (hended : (s.after n).ended = true) :
    let m := (s.after n).machine
    ∃ fault before around earlier rings,
      m.Fatal fault ∧
      s.moments n = before ++ [⟨m, around, .step⟩] ∧
      (∀ t ∈ before, t.report.answer.isOk = true) ∧
      (m.step around.keypad (around.dice 0)).answer = .error fault ∧
      (s.frames n).shown = earlier ++ m.nextLine.map .trace ∧
      (s.frames n).notices = List.replicate rings .bell ++ [.report fault m.pc m.fetch] := by
  intro m
  obtain ⟨k, fault, hk, hanswer, hframes, hmoments⟩ := exists_frame_of_ended hs hended
  obtain ⟨before, around, earlier, hframe, hok, hfails, htrace⟩ :=
    (h.after k).failsAtLast_frame hanswer
  obtain ⟨rings, hnotices⟩ := h.exists_notices_of_error hk hanswer
  have hfatal := (h.after k).fatal_of_answer hanswer
  have hlast := hframes.trans (frames_succ_last hk)
  rw [frame_of_error hanswer] at hlast
  -- the last frame leaves the machine of its history
  have hm : (s.after k).history.machine = m := (congrArg (fun p => p.session.machine) hlast).symm
  rw [hm] at hframe hfails htrace hnotices hfatal
  refine ⟨fault, s.moments k ++ before, around, (s.frames k).shown ++ earlier.map .trace, rings,
    hfatal, ?_, ?_, hfails, ?_, (congrArg Outcome.notices hframes).trans hnotices⟩
  · rw [hmoments, moments_succ hk, hframe, List.append_assoc]
  · intro t ht
    rcases List.mem_append.1 ht with ht | ht
    · exact h.isOk_moments hk t ht
    · exact hok t ht
  · rw [hlast, htrace, List.map_append, List.append_assoc]

end

end Session

end Runner

/-! ## The fault and the instruction -/

/-- A fault is about the instruction at an address: the word there is not known, and shown as no
instruction; or it is a call and the stack is full; or it is a return and the stack is empty. -/
inductive Fault.Names (address word : UInt16) : Fault → Prop
  | unknown (h : DisassemblesInvalid .standard word) :
      Names address word (.unknownInstruction word address)
  | overflow (h : (Word.nibble word 3).val = 0x2) : Names address word (.stackOverflow address)
  | underflow (h : word = 0x00ee) : Names address word (.stackUnderflow address)

theorem Machine.Fatal.names {m : Machine} {fault : Fault} (h : m.Fatal fault) :
    fault.Names m.pc m.fetch := by
  cases h with
  | unknown hw =>
    refine .unknown ((disassemblesInvalid_iff (.inr rfl) _).2 ?_)
    rw [← Option.not_isSome_iff_eq_none, Instruction.ofWord?_isSome_iff]
    exact hw
  | overflow hw _ => exact .overflow hw
  | underflow hw _ => exact .underflow hw

theorem Fault.Names.oneLine_message {address word : UInt16} {fault : Fault}
    (h : fault.Names address word) : OneLine fault.message := by
  refine Fault.oneLine_message fun f hf => ?_
  subst hf
  cases h

namespace Runner

/-- The text of bells and a report: behind the bells there are two lines, and the second one shows
the instruction. -/
theorem join_bells_report (rings : Nat) (fault : Fault) (pc word : UInt16) :
    String.join
        ((List.replicate rings Notice.bell ++ [Notice.report fault pc word]).map Notice.text) =
      String.join (List.replicate rings "\x07") ++ Colour.red.tint (embolden fault.message) ++
        "\n" ++
        (hex 3 pc.toNat ++ ": " ++ disassemble .standard word ++ " " ++
          Colour.brightBlack.tint (hex 4 word.toNat)) ++ "\n" := by
  rw [List.map_append, List.map_replicate, String.join_append]
  simp [Notice.text, String.append_assoc]

/-- **The report names the instruction that failed.** Let a fault end a run, and take the machine in
the end.

* The last thing that was done is a step of this machine, which ends in the fault. All before it
  came out well and has led to this machine, and its screen is the one that is shown in the end.
* The fault is about the word that stands at the program counter.
* It is written on one line, behind whatever bells there were, and on the next one stand the program
  counter, the disassembly of the word and its digits.
* With the trace on, the last line of the trace shows the same address and disassembly. -/
theorem fatal_report {settings : Settings} {dice : Nat → UInt8}
    {file : Except FileFault (List UInt8)} {s : Session} (hs : start settings dice file = .ok s)
    (hended : (s.after settings.frames).ended = true) :
    let p := s.frames settings.frames
    let m := (s.after settings.frames).machine
    let word := m.memory.word m.pc.toNat
    let named := hex 3 m.pc.toNat ++ ": " ++ disassemble .standard word
    ∃ fault before around rings,
      s.moments settings.frames = before ++ [⟨m, around, .step⟩] ∧
      (∀ t ∈ before, t.report.answer.isOk = true) ∧
      (s.machine.run (before.map Moment.action)).machine = m ∧
      (m.step around.keypad (around.dice 0)).answer = .error fault ∧
      fault.Names m.pc word ∧
      (let first := Colour.red.tint (embolden fault.message)
      let second := named ++ " " ++ Colour.brightBlack.tint (hex 4 word.toNat)
      OneLine first ∧ OneLine second ∧
      run settings dice file =
        { stdout := String.join (p.shown.map Shown.text) ++ m.screen.brailleText ++
            if settings.debug then m.dump else ""
          stderr :=
            String.join (List.replicate rings "\x07") ++ first ++ "\n" ++ second ++ "\n" }) ∧
      (settings.debug = true → ∃ earlier line blanks,
        p.shown = earlier ++ [.trace line] ∧
        line.text = Colour.brightBlack.tint (column 3 m.cycle) ++ " " ++ named ++
          String.ofList (List.replicate blanks ' ') ++ "\n") := by
  intro p m word named
  have hsound := sound_of_start hs
  obtain ⟨rom, -, -, -, hbegins⟩ := begins_of_start hs
  obtain ⟨fault, before, around, earlier, rings, hfatal, hmoments, hok, hfails, hshown, hnotices⟩ :=
    hsound.exists_failure hbegins.ended_eq hended
  have hnames : fault.Names m.pc word := hfatal.names
  refine ⟨fault, before, around, rings, hmoments, hok, Machine.machine_run_of_walk_eq hmoments,
    hfails, hnames, ⟨?_, ?_, ?_⟩, fun hdebug => ?_⟩
  · simpa using hnames.oneLine_message
  · have hcolon : OneLine ": " := by decide
    have hblank : OneLine " " := by decide
    simp [named, hcolon, hblank]
  · have hstderr := (congrArg (fun ns => String.join (ns.map Notice.text)) hnotices).trans
      (join_bells_report rings fault m.pc word)
    exact (run_of_start hs).trans (congrArg (Output.mk _ _) hstderr)
  · have hflag : m.flags.debug = true :=
      (congrArg Flags.debug (hsound.after settings.frames).flags_eq).trans hdebug
    have hline : m.nextLine = [⟨m.cycle, m.pc, m.fetch⟩] := if_pos hflag
    obtain ⟨blanks, htext⟩ := TraceLine.text_eq_shown ⟨m.cycle, m.pc, m.fetch⟩
    refine ⟨earlier, _, blanks, hshown.trans ?_, htext⟩
    rw [hline, List.map_singleton]

/-- A program that begins with a return has nowhere to go back to. -/
theorem fatal_report_returning :
    let settings : Settings := { clock := 60, frames := 1 }
    let dice : Nat → UInt8 := fun _ => 0
    let s := begun settings dice ((Machine.new settings.flags).load [0x00, 0xee]) Keypad.idle
    start settings dice (.ok [0x00, 0xee]) = .ok s ∧ (s.after 1).ended = true ∧
      ∃ before around, s.moments 1 = before ++ [⟨(s.after 1).machine, around, .step⟩] ∧
        ((s.after 1).machine.step around.keypad (around.dice 0)).answer =
          .error (.stackUnderflow 0x200) := by
  intro settings dice s
  have hs : start settings dice (.ok [0x00, 0xee]) = .ok s := rfl
  obtain ⟨hended, hpc, hword⟩ : (s.after 1).ended = true ∧ (s.after 1).machine.pc = 0x200 ∧
      (s.after 1).machine.memory.word 0x200 = 0x00ee := by decide +kernel
  obtain ⟨fault, before, around, -, hmoments, -, -, hfails, hnames, -⟩ := fatal_report hs hended
  refine ⟨hs, hended, before, around, hmoments, hfails.trans ?_⟩
  have haddress : (0x200 : UInt16).toNat = 0x200 := rfl
  change fault.Names (s.after 1).machine.pc
    ((s.after 1).machine.memory.word (s.after 1).machine.pc.toNat) at hnames
  rw [hpc, haddress, hword] at hnames
  cases hnames with
  | unknown h => cases (disassemblesInvalid_iff (.inr rfl) _).1 h
  | overflow h => exact absurd h (by decide)
  | underflow => rfl

end Runner

end Chip8
