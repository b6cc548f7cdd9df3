import Chip8.Machine.Execute

/-!
# Operating a machine

The host loads programs, gives the machine its two clocks, and delivers keys. The machine looks at
two things outside of itself, the keypad and the dice, which are arguments here: each instruction
has a byte of its own to draw.

* `Machine.step` executes one instruction; a machine that stands still or waits for a key does
  nothing.
* `Machine.steps` executes several, up to the first fault, and `steps_succ` is its law.
* `Machine.tick` counts the timers down, and `Machine.multistep` is some steps and a tick.
* `Operation` is any of the things a host does, and `Machine.perform` does it.
-/

namespace Chip8

/-- What a machine looks at outside of itself: the keypad, and the byte to be drawn by each of the
instructions to come. -/
structure Surroundings where
  keypad : Keypad
  dice : Nat → UInt8

/-- The surroundings after `k` instructions have had their bytes. -/
def Surroundings.drop (s : Surroundings) (k : Nat) : Surroundings :=
  { s with dice := fun j => s.dice (k + j) }

namespace Machine

/-! ## Programs -/

/-- The machine as its program finds it: glyphs and program in memory, all else as new, the flags
as they were. A tone that is heard stops, and the screen is cleared. -/
def reset (m : Machine) : Report Unit where
  answer := .ok ()
  machine :=
    { m with
      memory := Memory.fresh.writeAll Region.program.start m.rom
      screen := .blank
      stack := []
      pc := UInt16.ofNat Region.program.start
      index := 0
      registers := Vector.replicate 16 0
      timers := {}
      status := .running
      cycle := 0 }
  events := (if m.timers.sound ≠ 0 then [.toneStop] else []) ++ [.cleared]

/-- The machine reset with a new program. A program that is too large is refused. -/
def load (m : Machine) (rom : List UInt8) : Report Unit :=
  if rom.length > Region.program.size then
    .refused (.romTooLarge rom.length Region.program.size) m
  else
    { m with rom := rom }.reset

/-- The machine reset with a program from a file. A file that cannot be read is refused. -/
def loadFile (m : Machine) : Except FileFault (List UInt8) → Report Unit
  | .ok rom => m.load rom
  | .error fault => .refused (.file fault) m

/-! ## The instruction clock -/

/-- Execute the instruction at the program counter. After a fault the machine is as it was before
the instruction. -/
def step (m : Machine) (keypad : Keypad) (dice : UInt8) : Report Unit :=
  if m.flags.pause || m.isWaiting then
    .done m
  else
    let word := m.fetch
    let trace := if m.flags.debug then [⟨m.cycle, m.pc, word⟩] else []
    match Instruction.ofWord? word with
    | none => { answer := .error (.unknownInstruction word m.pc), machine := m, trace := trace }
    | some i =>
      match m.execute keypad dice i with
      | .error fault => { answer := .error fault, machine := m, trace := trace }
      | .ok e =>
        { answer := .ok ()
          machine := { e.machine with pc := e.flow.target m.pc, cycle := m.cycle + 1 }
          events := e.events
          trace := trace }

/-- Execute `n` instructions, the first of which draws the byte `first` of the dice; stop at the
first fault. The events and lines that have been collected before stand in front. -/
def stepsFrom (m : Machine) (s : Surroundings) (events : Array Event) (trace : Array TraceLine)
    (first : Nat) : Nat → Report Unit
  | 0 => { answer := .ok (), machine := m, events := events.toList, trace := trace.toList }
  | n + 1 =>
    let r := m.step s.keypad (s.dice first)
    let events := events.appendList r.events
    let trace := trace.appendList r.trace
    match r.answer with
    | .error fault =>
      { answer := .error fault, machine := r.machine, events := events.toList
        trace := trace.toList }
    | .ok () => r.machine.stepsFrom s events trace (first + 1) n

/-- Execute `n` instructions; stop at the first fault. -/
def steps (m : Machine) (s : Surroundings) (n : Nat) : Report Unit :=
  m.stepsFrom s #[] #[] 0 n

/-! ## The timer clock -/

/-- Count the timers down; the tone stops when its timer comes to zero. A machine that stands still
does nothing. -/
def tick (m : Machine) : Report Unit :=
  if m.flags.pause then
    .done m
  else
    let (ended, timers) := m.timers.tick
    { answer := .ok ()
      machine := { m with timers := timers }
      events := if ended then [.toneStop] else [] }

/-- Execute `n` instructions and count the timers down; after a fault there is no countdown. -/
def multistep (m : Machine) (s : Surroundings) (n : Nat) : Report Unit :=
  let r := m.steps s n
  match r.answer with
  | .error _ => r
  | .ok () =>
    let t := r.machine.tick
    { t with events := r.events ++ t.events, trace := r.trace }

/-! ## Keys and registers -/

/-- Give a key to a machine that waits for one, and say whether it did. There are sixteen keys. -/
def deliverKey (m : Machine) (key : UInt8) : Report Bool :=
  if 0xf < key then
    .refused (.invalidKey key.toNat) m
  else
    match m.status with
    | .running => { answer := .ok false, machine := m }
    | .waiting target =>
      { answer := .ok true
        machine :=
          { m.withRegister target key with
            status := .running, pc := Word.wrap (m.pc.toNat + 2) } }

/-- Put a value into a register. There are sixteen registers. -/
def setRegister (m : Machine) (register : Nat) (value : UInt8) : Report Unit :=
  if h : register < 16 then
    .done (m.withRegister ⟨register, h⟩ value)
  else
    .refused (.invalidRegister register) m

/-- Make a change to memory. -/
def editMemory (m : Machine) (edit : Memory.Edit) : Report Unit :=
  match edit.apply m.memory with
  | .ok memory => .done { m with memory := memory }
  | .error fault => .refused fault m

end Machine

/-! ## Operations -/

/-- Something that a host does with a machine. -/
inductive Operation
  | load (rom : List UInt8)
  | reset
  | step
  | multistep (n : Nat)
  | tick
  | deliverKey (key : UInt8)
  | setRegister (register : Nat) (value : UInt8)
  | editMemory (edit : Memory.Edit)
  | setFlags (flags : Flags)
  deriving DecidableEq, Repr

/-- Do an operation. Only the delivery of a key has an answer of its own. -/
def Machine.perform (m : Machine) (s : Surroundings) : Operation → Report (Option Bool)
  | .load rom => (m.load rom).map fun _ => none
  | .reset => m.reset.map fun _ => none
  | .step => (m.step s.keypad (s.dice 0)).map fun _ => none
  | .multistep n => (m.multistep s n).map fun _ => none
  | .tick => m.tick.map fun _ => none
  | .deliverKey key => (m.deliverKey key).map some
  | .setRegister register value => (m.setRegister register value).map fun _ => none
  | .editMemory edit => (m.editMemory edit).map fun _ => none
  | .setFlags flags => { answer := .ok none, machine := { m with flags := flags } }

/-! ## The law of several steps -/

namespace Machine

theorem step_of_idle {m : Machine} (h : (m.flags.pause || m.isWaiting) = true) (keypad : Keypad)
    (dice : UInt8) : m.step keypad dice = .done m := by
  rw [step, if_pos h]

/-- What has been collected before stands in front. -/
theorem stepsFrom_eq (m : Machine) (s : Surroundings) (events : Array Event)
    (trace : Array TraceLine) (first n : Nat) :
    m.stepsFrom s events trace first n =
      { m.stepsFrom s #[] #[] first n with
        events := events.toList ++ (m.stepsFrom s #[] #[] first n).events
        trace := trace.toList ++ (m.stepsFrom s #[] #[] first n).trace } := by
  induction n generalizing m events trace first with
  | zero => simp [stepsFrom]
  | succ n ih =>
    rw [stepsFrom, stepsFrom]
    cases (m.step s.keypad (s.dice first)).answer with
    | error fault => simp
    | ok =>
      simp only
      rw [ih, ih _ (#[].appendList _)]
      simp

/-- Which byte of the dice is the first makes no difference to dice that begin there. -/
theorem stepsFrom_drop (m : Machine) (s : Surroundings) (events : Array Event)
    (trace : Array TraceLine) (k first n : Nat) :
    m.stepsFrom (s.drop k) events trace first n = m.stepsFrom s events trace (k + first) n := by
  induction n generalizing m events trace first with
  | zero => simp [stepsFrom]
  | succ n ih =>
    rw [stepsFrom, stepsFrom]
    simp only [ih]
    rfl

@[simp]
theorem steps_zero (m : Machine) (s : Surroundings) : m.steps s 0 = .done m := rfl

/-- **Some steps are a step and the others after it**, unless that step fails. -/
theorem steps_succ (m : Machine) (s : Surroundings) (n : Nat) :
    m.steps s (n + 1) =
      let r := m.step s.keypad (s.dice 0)
      match r.answer with
      | .error _ => r
      | .ok () =>
        let rest := r.machine.steps (s.drop 1) n
        { rest with events := r.events ++ rest.events, trace := r.trace ++ rest.trace } := by
  rw [steps, stepsFrom]
  generalize m.step s.keypad (s.dice 0) = r
  obtain ⟨answer, machine, events, trace⟩ := r
  cases answer with
  | error fault => simp
  | ok =>
    simp only [steps, stepsFrom_drop]
    rw [stepsFrom_eq]
    simp

end Machine

end Chip8
