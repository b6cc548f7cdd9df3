import Chip8.Proofs.Execution

/-!
# What an instruction depends on

Most instructions have nothing to do with the timers, and most read nothing from memory.
`Instr.UsesTimers` and `Instr.readCount` say which do. `Machine.execute_replaced` is the law behind
every comparison of two machines: with another memory and other timers an instruction does the same,
as long as it finds the same in the cells that it reads and in the timers that it uses.
-/

namespace Chip8

/-- Whether an instruction reads or sets a timer. -/
def Instr.UsesTimers {ν α : Type} : Instr ν α → Prop
  | .readDelay _ | .setDelay _ | .setSound _ => True
  | _ => False

/-- The number of cells from the index on that an instruction reads. -/
def Instr.readCount : Instruction → Nat
  | .draw _ _ n => n
  | .load x => x + 1
  | _ => 0

namespace Machine

/-- The machine with another memory and other timers. -/
def replaced (m : Machine) (memory : Memory) (t : Timers) : Machine :=
  { m with memory := memory, timers := t }

variable (m : Machine) (memory : Memory) (t : Timers)

theorem calculated_replaced (c : Calculation) (x y : Fin 16) :
    (m.replaced memory t).calculated c x y = (m.calculated c x y).replaced memory t := by
  cases c <;> rfl

theorem returned_replaced :
    (m.replaced memory t).returned =
      m.returned.map fun e => { e with machine := e.machine.replaced memory t } := by
  have hstack : (m.replaced memory t).stack = m.stack := rfl
  unfold returned
  rw [hstack]
  cases m.stack <;> rfl

theorem indexAdvanced_replaced (b : UInt8) :
    (m.replaced memory t).indexAdvanced b = (m.indexAdvanced b).replaced memory t := by
  unfold indexAdvanced
  show (if m.flags.dialect.keepFlag then _ else _) = _
  dsimp only
  split <;> rfl

theorem pastBlock_replaced (x : Fin 16) :
    (m.replaced memory t).pastBlock x = (m.pastBlock x).replaced memory t := by
  rw [pastBlock_eq, pastBlock_eq]
  rfl

theorem withBlock_replaced {x : Fin 16}
    (h : memory.bytes m.index.toNat (x + 1) = m.memory.bytes m.index.toNat (x + 1)) :
    (m.replaced memory t).withBlock x = (m.withBlock x).replaced memory t := by
  have hread : ∀ r : Fin 16, r ≤ x →
      memory.read (m.index.toNat + r) = m.memory.read (m.index.toNat + r) := by
    intro r hr
    exact List.map_inj_left.1 h r (List.mem_range.2 (Nat.lt_succ_of_le hr))
  have hregisters : ((m.replaced memory t).withBlock x).registers = (m.withBlock x).registers := by
    refine congrArg Vector.ofFn (funext fun r => ?_)
    exact ite_congr rfl (hread r) fun _ => rfl
  show { m.replaced memory t with registers := ((m.replaced memory t).withBlock x).registers } = _
  rw [hregisters]
  rfl

/-- **An instruction does the same with another memory and other timers**, if it finds the same in
them. -/
theorem execute_replaced (keypad : Keypad) (dice : UInt8) {i : Instruction}
    (hmemory : memory.bytes m.index.toNat i.readCount = m.memory.bytes m.index.toNat i.readCount)
    (htimers : i.UsesTimers → t = m.timers) :
    (m.replaced memory t).execute keypad dice i =
      (m.execute keypad dice i).map fun e =>
        { e with
          machine := e.machine.replaced ((m.replaced memory t).memoryAfter i)
            ((m.replaced memory t).timersAfter i) } := by
  cases i with
  | readDelay x | setDelay x | setSound x =>
    obtain rfl := htimers trivial
    rfl
  | ret =>
    simp only [execute, returned_replaced]
    cases m.returned <;> rfl
  | call a =>
    simp only [execute, callTo]
    show (if m.stack.length < stackDepth then _ else _) = _
    split <;> rfl
  | skip expected test => cases test <;> rfl
  | calculate c x y =>
    simp only [execute, calculated_replaced]
    rfl
  | addIndex x =>
    simp only [execute, indexAdvanced_replaced]
    rfl
  | draw x y n =>
    have hsprite : (m.replaced memory t).memory.bytes (m.replaced memory t).index.toNat n =
        m.memory.bytes m.index.toNat n := hmemory
    simp only [execute, drawn, hsprite]
    rfl
  | store x =>
    simp only [execute, pastBlock_eq]
    rfl
  | load x =>
    simp only [execute, withBlock_replaced m memory t hmemory, pastBlock_replaced]
    rfl
  | _ => rfl

end Machine

end Chip8
