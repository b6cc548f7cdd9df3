import Chip8.Proofs.Bare.Agreement

/-!
# No machine breaks down

A bare machine is regular if its counters lie inside memory and none of its parts is missing. Such
a machine is a regular `Machine` written out (`Regular.bare_toMachine`), so no operation breaks it
down, and it stays regular. `Bare.run_regular` puts this together for every run from the
construction on.
-/

namespace Chip8

namespace Bare

/-! ## Construction and runs -/

/-- The bare machine in which a run begins. -/
def new? (flags : Flags) : Option Bare :=
  { flags := flags
    cells := List.replicate memorySize 0
    rows := List.replicate 32 0
    font := UInt16.ofNat Region.charset.start
    rom := []
    stack := []
    pc := UInt16.ofNat Region.program.start
    index := 0
    registers := List.replicate 16 0
    timers := {}
    target := none
    cycle := 0 : Bare }.freshMemory?

/-- Do an action. -/
def act? (b : Bare) (a : Action) : Option (Report (Option Bool)) :=
  b.perform? a.surroundings a.operation

/-- The machine after some actions, whatever their answers are, unless it breaks down. -/
def run? (b : Bare) : List Action → Option Bare
  | [] => some b
  | a :: rest => (b.act? a).bind fun r => r.machine.run? rest

/-- What holds of a bare machine whatever has been done with it. -/
structure Regular (b : Bare) : Prop where
  pc_lt : b.pc.toNat < memorySize
  index_lt : b.index.toNat < memorySize
  length_stack_le : b.stack.length ≤ stackDepth
  stack_lt : ∀ a ∈ b.stack, a.toNat < memorySize
  length_cells : b.cells.length = memorySize
  length_rows : b.rows.length = Screen.height
  length_registers : b.registers.length = 16
  length_rom_le : b.rom.length ≤ Region.program.size
  font_eq : b.font = 0x50
  target_lt : ∀ x, b.target = some x → x < 16

/-! ## Regular bare machines are machines -/

theorem regular_bare {m : Machine} (h : m.Regular) : m.bare.Regular where
  pc_lt := h.pc_lt
  index_lt := h.index_lt
  length_stack_le := h.length_stack_le
  stack_lt := h.stack_lt
  length_cells := Vector.length_toList
  length_rows := Vector.length_toList
  length_registers := Vector.length_toList
  length_rom_le := h.length_rom_le
  font_eq := h.font_eq
  target_lt := fun x hx => by
    replace hx : m.status.target? = some x := hx
    cases hs : m.status with
    | running =>
      rw [hs] at hx
      cases hx
    | waiting target =>
      rw [hs] at hx
      cases hx
      exact target.isLt

/-- The status in which the register with a number waits, if there is a number. -/
def statusOf : (target : Option Nat) → (∀ x, target = some x → x < 16) → Status
  | none, _ => .running
  | some x, h => .waiting ⟨x, h x rfl⟩

theorem target?_statusOf (target : Option Nat) (h : ∀ x, target = some x → x < 16) :
    (statusOf target h).target? = target := by
  cases target <;> rfl

/-- The machine that a regular bare machine writes out. -/
def Regular.toMachine {b : Bare} (h : b.Regular) : Machine where
  flags := b.flags
  memory := ⟨⟨b.cells.toArray, h.length_cells⟩⟩
  screen := ⟨⟨b.rows.toArray, h.length_rows⟩⟩
  font := b.font
  rom := b.rom
  stack := b.stack
  pc := b.pc
  index := b.index
  registers := ⟨b.registers.toArray, h.length_registers⟩
  timers := b.timers
  status := statusOf b.target h.target_lt
  cycle := b.cycle

theorem Regular.bare_toMachine {b : Bare} (h : b.Regular) : h.toMachine.bare = b := by
  show { b with target := (statusOf b.target h.target_lt).target? } = b
  rw [target?_statusOf]

theorem Regular.regular_toMachine {b : Bare} (h : b.Regular) : h.toMachine.Regular where
  pc_lt := h.pc_lt
  index_lt := h.index_lt
  length_stack_le := h.length_stack_le
  stack_lt := h.stack_lt
  length_rom_le := h.length_rom_le
  font_eq := h.font_eq

theorem act?_bare {m : Machine} (h : m.Regular) (a : Action) :
    m.bare.act? a = some (m.act a).bare :=
  Machine.perform?_bare h _ _

theorem new?_bare (flags : Flags) : new? flags = some (Machine.new flags).bare := by
  let empty : Machine := { Machine.new flags with memory := .zero }
  show empty.bare.freshMemory? = _
  rw [Machine.freshMemory?_bare]
  rfl

/-! ## Runs -/

theorem regular_act {m : Machine} (h : m.Regular) (a : Action) : (m.act a).machine.Regular := by
  have hrun := h.run [a]
  rw [Machine.run_singleton] at hrun
  exact hrun

theorem run?_bare {m : Machine} (h : m.Regular) (actions : List Action) :
    m.bare.run? actions = some (m.run actions).machine.bare := by
  induction actions generalizing m with
  | nil => rfl
  | cons a rest ih =>
    rw [run?, act?_bare h, Option.bind_some]
    exact ih (regular_act h a)

/-- **No run breaks down.** Every run of a bare machine from its construction comes to an end in a
regular machine, the one of the same run of a machine, and from a regular machine every operation
comes to an end in a regular machine. -/
theorem run_regular (flags : Flags) (actions : List Action) :
    (∃ b, (new? flags).bind (fun b => b.run? actions) = some b ∧ b.Regular ∧
      b = ((Machine.new flags).run actions).machine.bare) ∧
    ∀ b : Bare, b.Regular → ∀ a, ∃ r, b.act? a = some r ∧ r.machine.Regular := by
  refine ⟨⟨_, ?_, regular_bare (Machine.regular_run flags actions), rfl⟩, fun b hb a => ?_⟩
  · rw [new?_bare, Option.bind_some, run?_bare (Machine.regular_new flags)]
  · have hact := act?_bare hb.regular_toMachine a
    rw [hb.bare_toMachine] at hact
    exact ⟨_, hact, regular_bare (regular_act hb.regular_toMachine a)⟩

end Bare

end Chip8
