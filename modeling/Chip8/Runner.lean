import Chip8.CommandLine.Grammar
import Chip8.Machine.Inspect
import Chip8.Machine.Operation
import Chip8.Screen.Text

/-!
# Running a program in the terminal

The runner gives a machine its two clocks: sixty frames a second, and in each frame a share of the
instruction clock and one tick. What the machine does is shown on the terminal.

* `Pace.next` divides the instruction clock among the frames without losing a part of a step.
* `Session.frame` runs one frame and `Session.frames` several; a fault ends the run. `frames_succ`
  is the law of several frames.
* `Shown` and `Notice` are what is written to the two outputs of the terminal.
* `Runner.command` is the program.
-/

namespace Chip8

open Text CommandLine

namespace Runner

/-! ## The pace -/

/-- The number of frames in a second. -/
def frameRate : Nat := 60

/-- The largest credit that is kept. -/
def creditLimit : Nat := UInt64.size - 1

/-- A clock in steps per second, and the sixtieths of a step that are still owed. -/
structure Pace where
  clock : Nat
  credit : Nat := 0
  deriving DecidableEq, Repr

/-- The steps of the next frame, and the pace after it. -/
def Pace.next (p : Pace) : Nat × Pace :=
  let credit := min (p.credit + p.clock) creditLimit
  (credit / frameRate, { p with credit := credit % frameRate })

/-! ## The bell and the screen -/

/-- The bell of the terminal: whether the tone is heard, and how often the bell has been rung. -/
structure Bell where
  playing : Bool := false
  rings : Nat := 0
  deriving DecidableEq, Repr

/-- The bell rings when a tone starts that is not heard already. -/
def Bell.hear (b : Bell) : Event → Bell
  | .toneStart => ⟨true, if b.playing then b.rings else b.rings + 1⟩
  | .toneStop => { b with playing := false }
  | .pixel _ | .cleared => b

/-- Whether an event changes the screen. -/
def changesScreen : Event → Bool
  | .pixel _ | .cleared => true
  | .toneStart | .toneStop => false

/-! ## What is written -/

/-- What is written to the standard output. -/
inductive Shown
  /-- A line of the trace. -/
  | trace (line : TraceLine)
  /-- A screen. -/
  | screen (s : Screen)
  /-- The table of the registers. -/
  | registers (m : Machine)

/-- The text of what is shown. -/
def Shown.text : Shown → String
  | trace line => line.text
  | screen s => s.brailleText
  | registers m => m.dump

/-- What is written to the error output. -/
inductive Notice
  /-- The bell. -/
  | bell
  /-- The fault that ended the run, with the program counter and the word there. -/
  | report (fault : Fault) (pc word : UInt16)
  deriving DecidableEq, Repr

/-- The text of a notice. -/
def Notice.text : Notice → String
  | bell => "\x07"
  | report fault pc word =>
    Colour.red.tint (embolden fault.message) ++ "\n" ++ hex 3 pc.toNat ++ ": "
      ++ disassemble .standard word ++ " " ++ Colour.brightBlack.tint (hex 4 word.toNat) ++ "\n"

/-! ## Settings -/

/-- The settings of the runner. -/
structure Settings where
  debug : Bool := false
  dialect : Dialect := {}
  /-- The instruction clock, in steps per second. -/
  clock : Nat := 500
  /-- The number of frames. -/
  frames : Nat := 600
  /-- The key that is held down, and delivered to a machine that waits for one. -/
  key : Option UInt8 := none
  /-- Whether the frames follow each other without a pause. -/
  fast : Bool := false
  /-- Whether the screen is shown after every frame that drew to it. -/
  watch : Bool := false
  deriving DecidableEq, Repr

/-- The flags of a machine with the settings. -/
def Settings.flags (s : Settings) : Flags :=
  { debug := s.debug, dialect := s.dialect }

/-- The command line of the runner. -/
def grammar : Grammar Settings where
  name := "c8vm"
  fileAbout := "Load a ROM to run on c8vm."
  switches :=
    [{ short := 'h', long := "help", action := .help, about := "Print this help message." },
      { short := 'd', long := "debug", action := .flag fun s => { s with debug := true }
        about := "Enable debug mode at startup." },
      { short := 'r', long := "clock"
        action := .value "HZ" (some "500") fun text => do
          let clock ← readUnsigned 10 (UInt64.size - 1) text
          return fun s => { s with clock := clock }
        about := "Set the instruction clock, in Hz." },
      { short := 'n', long := "frames"
        action := .value "N" (some "600") fun text => do
          let frames ← readUnsigned 10 (UInt64.size - 1) text
          return fun s => { s with frames := frames }
        about := "Stop after this many frames." },
      { short := 'k', long := "key"
        action := .value "KEY" none fun text => do
          let key ← readUnsigned 16 255 text
          return fun s => { s with key := some (UInt8.ofNat key) }
        about := "Hold KEY down, and deliver it to every wait-for-key." },
      { short := 'c', long := "memory"
        action := .flag fun s => { s with dialect := { s.dialect with keepIndex := true } }
        about := "Use CHIP-48 style DMA instructions, which don't touch I." },
      { short := 'i', long := "index"
        action := .flag fun s => { s with dialect := { s.dialect with keepFlag := true } }
        about := "Don't set vF when adding to I overflows." },
      { short := 'f', long := "fast", action := .flag fun s => { s with fast := true }
        about := "Run as fast as possible, instead of in realtime." },
      { short := 'w', long := "watch", action := .flag fun s => { s with watch := true }
        about := "Print the screen after every frame that drew to it." }]

/-! ## Sessions -/

/-- A run in progress. -/
structure Session where
  settings : Settings
  machine : Machine
  surroundings : Surroundings
  pace : Pace
  /-- The number of bytes of the dice that are used up. -/
  drawn : Nat := 0
  bell : Bell := {}
  /-- Whether the screen has changed since it was shown. -/
  dirty : Bool := false
  /-- Whether a fault has ended the run. -/
  ended : Bool := false

/-- What some frames leave: the session, and what was written. -/
structure Outcome where
  session : Session
  shown : List Shown := []
  notices : List Notice := []

/-- Begin a run: load the program, then hold the key. -/
def start (settings : Settings) (dice : Nat → UInt8) (file : Except FileFault (List UInt8)) :
    Except Fault Session := do
  let loaded := (Machine.new settings.flags).loadFile file
  loaded.answer
  let keypad ←
    match settings.key with
    | none => pure Keypad.idle
    | some key => (Keypad.idle.press key.toNat).map Prod.snd
  return {
    settings := settings
    machine := loaded.machine
    surroundings := ⟨keypad, dice⟩
    pace := { clock := settings.clock }
    bell := loaded.events.foldl Bell.hear {}
    dirty := loaded.events.any changesScreen }

namespace Session

/-- The steps and the tick of a frame, and after them the delivery of the key. -/
def advance (s : Session) (steps : Nat) : Report Unit :=
  let r := s.machine.multistep (s.surroundings.drop s.drawn) steps
  match r.answer, s.settings.key with
  | .ok (), some key =>
    let delivery := r.machine.deliverKey key
    { delivery.map fun _ => () with
      events := r.events ++ delivery.events, trace := r.trace ++ delivery.trace }
  | _, _ => r

/-- Run one frame. A fault is reported and ends the run. -/
def frame (s : Session) : Outcome :=
  let (steps, pace) := s.pace.next
  let r := s.advance steps
  let bell := r.events.foldl Bell.hear s.bell
  let dirty := s.dirty || r.events.any changesScreen
  let next :=
    { s with
      machine := r.machine, pace := pace, drawn := s.drawn + steps, bell := bell
      dirty := dirty }
  let trace := r.trace.map .trace
  let bells := List.replicate (bell.rings - s.bell.rings) .bell
  match r.answer with
  | .error fault =>
    { session := { next with ended := true }
      shown := trace
      notices := bells ++ [.report fault r.machine.pc r.machine.fetch] }
  | .ok () =>
    if s.settings.watch && dirty then
      { session := { next with dirty := false }
        shown := trace ++ [.screen r.machine.screen]
        notices := bells }
    else
      { session := next, shown := trace, notices := bells }

/-- Run `n` frames, or as many as there are before a fault. What has been written before stands in
front. -/
def framesFrom (s : Session) (shown : Array Shown) (notices : Array Notice) : Nat → Outcome
  | 0 => { session := s, shown := shown.toList, notices := notices.toList }
  | n + 1 =>
    if s.ended then
      { session := s, shown := shown.toList, notices := notices.toList }
    else
      let p := s.frame
      p.session.framesFrom (shown.appendList p.shown) (notices.appendList p.notices) n

/-- Run `n` frames, or as many as there are before a fault. -/
def frames (s : Session) (n : Nat) : Outcome :=
  s.framesFrom #[] #[] n

/-- What is shown at the end of a run: the screen, and in a debug run the registers. -/
def finale (s : Session) : List Shown :=
  .screen s.machine.screen :: (if s.machine.flags.debug then [.registers s.machine] else [])

/-! ## The law of several frames -/

/-- What has been written before stands in front. -/
theorem framesFrom_eq (s : Session) (shown : Array Shown) (notices : Array Notice) (n : Nat) :
    s.framesFrom shown notices n =
      { s.frames n with
        shown := shown.toList ++ (s.frames n).shown
        notices := notices.toList ++ (s.frames n).notices } := by
  induction n generalizing s shown notices with
  | zero => simp [frames, framesFrom]
  | succ n ih =>
    rw [frames, framesFrom, framesFrom]
    split
    · simp
    · simp only
      rw [ih, ih _ (#[].appendList _)]
      simp

@[simp]
theorem frames_zero (s : Session) : s.frames 0 = { session := s } := rfl

theorem frames_of_ended {s : Session} (h : s.ended = true) (n : Nat) :
    s.frames n = { session := s } := by
  cases n with
  | zero => rfl
  | succ n => simp [frames, framesFrom, h]

/-- **Some frames are a frame and the others after it**, until a fault has ended the run. -/
theorem frames_succ {s : Session} (h : s.ended = false) (n : Nat) :
    s.frames (n + 1) =
      let first := s.frame
      let rest := first.session.frames n
      { rest with
        shown := first.shown ++ rest.shown
        notices := first.notices ++ rest.notices } := by
  rw [frames, framesFrom, framesFrom_eq]
  simp [h]

end Session

/-! ## The program -/

/-- Run the program of a file. -/
def run (settings : Settings) (dice : Nat → UInt8) (file : Except FileFault (List UInt8)) :
    Output :=
  match start settings dice file with
  | .error fault => { exit := 1, stderr := "Error: " ++ fault.debugText ++ "\n" }
  | .ok session =>
    let p := session.frames settings.frames
    { stdout := String.join ((p.shown ++ p.session.finale).map Shown.text)
      stderr := String.join (p.notices.map Notice.text) }

/-- The runner on a command line, where `files` gives the bytes of a file. -/
def command (files : String → Except FileFault (List UInt8)) (dice : Nat → UInt8)
    (arguments : List String) : Output :=
  grammar.run {} arguments fun file settings => run settings dice (files file)

end Runner

end Chip8
