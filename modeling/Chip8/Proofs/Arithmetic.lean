import Chip8.Proofs.Footprint
import Chip8.Proofs.Restart

/-!
# Arithmetic

The calculations on two registers, and the addition of a byte to a register, in numbers. The two
registers may be the same one, and either of them may be the flag register: both values are read
before anything is written, and the flag is written last.

* `Calculation.Yields` says what a calculation should come to, and `yields_apply` that it does.
* `Machine.register_calculated_result` and `Machine.register_calculated_flag` say where the result
  and the flag go.
* `Machine.arithmetic_exact` is about a whole step.
-/

namespace Chip8

/-! ## Results and flags -/

namespace Calculation

/-- A calculation on the values `a` and `b` should come to the result `r` and the flag `f`. Nothing
is said about the flag of a calculation that has none. -/
def Yields (a b r f : Nat) : Calculation → Prop
  | copy => r = b
  | bitOr => r = a ||| b
  | bitAnd => r = a &&& b
  | bitXor => r = a ^^^ b
  | add => r + 256 * f = a + b
  | subtract => (r : Int) = ((a : Int) - b) % 256 ∧ (f = 1 ↔ b < a)
  | shiftRight => 2 * r + f = a
  | subtractFrom => (r : Int) = ((b : Int) - a) % 256 ∧ (f = 1 ↔ a < b)
  | shiftLeft => r + 256 * f = 2 * a

/-- The flag of a calculation as a byte. -/
def flagByte (c : Calculation) (a b : UInt8) : UInt8 :=
  if (c.apply a b).2 = some true then 1 else 0

theorem toNat_flagByte_le (c : Calculation) (a b : UInt8) : (c.flagByte a b).toNat ≤ 1 := by
  unfold flagByte
  split <;> simp

theorem toNat_sub_eq_emod (a b : UInt8) :
    ((a - b).toNat : Int) = ((a.toNat : Int) - b.toNat) % 256 := by
  have ha := a.toNat_lt
  have hb := b.toNat_lt
  rw [UInt8.toNat_sub]
  omega

/-- **A calculation comes to what it should**, whatever the two values are. -/
theorem yields_apply (c : Calculation) (a b : UInt8) :
    c.Yields a.toNat b.toNat (c.apply a b).1.toNat (c.flagByte a b).toNat := by
  have ha := a.toNat_lt
  have hb := b.toNat_lt
  cases c with
  | copy => rfl
  | bitOr => exact UInt8.toNat_or a b
  | bitAnd => exact UInt8.toNat_and a b
  | bitXor => exact UInt8.toNat_xor a b
  | add =>
    simp only [Yields, flagByte, apply, UInt8.toNat_add, Option.some.injEq, decide_eq_true_eq]
    split <;> simp <;> omega
  | subtract =>
    refine ⟨toNat_sub_eq_emod a b, ?_⟩
    simp only [flagByte, apply, Option.some.injEq, decide_eq_true_eq, UInt8.lt_iff_toNat_lt]
    split <;> simp_all
  | shiftRight =>
    have hresult : (a >>> 1).toNat = a.toNat / 2 := by simp [Nat.shiftRight_eq_div_pow]
    simp only [Yields, flagByte, apply, hresult, Option.some.injEq, decide_eq_true_eq]
    split <;> simp <;> omega
  | subtractFrom =>
    refine ⟨toNat_sub_eq_emod b a, ?_⟩
    simp only [flagByte, apply, Option.some.injEq, decide_eq_true_eq, UInt8.lt_iff_toNat_lt]
    split <;> simp_all
  | shiftLeft =>
    have hresult : (a <<< 1).toNat = a.toNat * 2 % 256 := by simp [Nat.shiftLeft_eq]
    simp only [Yields, flagByte, apply, hresult, Option.some.injEq, decide_eq_true_eq]
    split <;> simp <;> omega

end Calculation

/-! ## The registers after a calculation -/

namespace Machine

variable (m : Machine) (c : Calculation) (x y : Fin 16)

theorem register_calculated_result (h : c.hasFlag = true → x ≠ 0xf) :
    (m.calculated c x y).register x = (c.apply (m.register x) (m.register y)).1 := by
  have hresult : ∀ b, (m.withRegister x b).register x = b := by
    simp [register_withRegister]
  have hflag : c.hasFlag = true → ∀ b f, ((m.withRegister x b).withFlag f).register x = b := by
    intro hc b f
    rw [register_withFlag, if_neg (h hc), hresult]
  cases c with
  | copy | bitOr | bitAnd | bitXor => exact hresult _
  | add | subtract | shiftRight | subtractFrom | shiftLeft => exact hflag rfl _ _

theorem register_calculated_flag (h : c.hasFlag = true) :
    (m.calculated c x y).register 0xf = c.flagByte (m.register x) (m.register y) := by
  have hflag : ∀ b f, ((m.withRegister x b).withFlag f).register 0xf = if f then 1 else 0 := by
    simp [register_withFlag]
  cases c with
  | copy | bitOr | bitAnd | bitXor => cases h
  | add | subtract | shiftRight | subtractFrom | shiftLeft =>
    refine (hflag _ _).trans ?_
    simp [Calculation.flagByte, Calculation.apply]

end Machine

/-! ## Steps -/

/-- A step comes out well, tells the outside nothing, and on its way to the next instruction changes
nothing but registers. -/
structure Report.OnlyRegisters (m : Machine) (r : Report Unit) : Prop where
  answer : r.answer = .ok ()
  events : r.events = []
  machine : r.machine =
    { m with
      registers := r.machine.registers
      pc := Word.wrap (m.pc.toNat + 2)
      cycle := m.cycle + 1 }

namespace Machine

/-- An instruction whose whole effect is on the registers. -/
theorem onlyRegisters_step {m m' : Machine} (keypad : Keypad) (dice : UInt8) {i : Instruction}
    (h : m.IsActive) (hw : m.fetch = i.word) (hi : m.execute keypad dice i = .ok { machine := m' })
    (hm' : m' = { m with registers := m'.registers }) :
    (m.step keypad dice).OnlyRegisters m ∧
      ∀ z, (m.step keypad dice).machine.register z = m'.register z := by
  rw [step_of_execute h (Instruction.ofWord?_eq_some_iff.2 hw) hi]
  refine ⟨⟨rfl, rfl, ?_⟩, fun z => rfl⟩
  change m.advanced { machine := m' } = _
  rw [advanced, hm']
  rfl

/-- **Arithmetic is exact**, for all values and any two registers `x` and `y`, which may be the same
one or the flag register. Take a machine that runs, with the values `a` and `b` in these registers.

* A calculation comes to the result and the flag that it should. Its result is then in `x`, and its
  flag, if it has one, in the flag register; if `x` is the flag register the result is lost.
* The addition of a byte leaves the sum modulo 256 in `x`, and no flag.

No other register is changed, and nothing else but the program counter, which goes on to the next
instruction, and the count of instructions. -/
theorem arithmetic_exact {m : Machine} (h : m.IsActive) (keypad : Keypad) (dice : UInt8)
    (x : Fin 16) :
    let r := m.step keypad dice
    let after := r.machine
    let a := (m.register x).toNat
    (∀ (c : Calculation) (y : Fin 16), m.fetch = (Instr.calculate c x y).word →
      r.OnlyRegisters m ∧
      ∃ result flag : UInt8,
        c.Yields a (m.register y).toNat result.toNat flag.toNat ∧ flag.toNat ≤ 1 ∧
        (c.hasFlag = false → after.register x = result) ∧
        (c.hasFlag = true → after.register 0xf = flag ∧ (x ≠ 0xf → after.register x = result)) ∧
        ∀ z, z ≠ x → (c.hasFlag = true → z ≠ 0xf) → after.register z = m.register z) ∧
    ∀ b : UInt8, m.fetch = (Instr.addByte x b).word →
      r.OnlyRegisters m ∧
      (after.register x).toNat = (a + b.toNat) % 256 ∧
      ∀ z, z ≠ x → after.register z = m.register z := by
  intro r after a
  refine ⟨fun c y hw => ?_, fun b hw => ?_⟩
  · obtain ⟨honly, hregister⟩ :=
      onlyRegisters_step keypad dice h hw rfl (m.calculated_eq c x y)
    refine ⟨honly, _, _, c.yields_apply (m.register x) (m.register y), c.toNat_flagByte_le _ _,
      fun hc => ?_, fun hc => ⟨?_, fun hx => ?_⟩, fun z hz hf => ?_⟩
    · rw [hregister, register_calculated_result m c x y fun hc' => by simp [hc] at hc']
    · rw [hregister, register_calculated_flag m c x y hc]
    · rw [hregister, register_calculated_result m c x y fun _ => hx]
    · rw [hregister]
      apply register_calculated
      rintro (rfl | ⟨rfl, hc⟩)
      · exact hz rfl
      · exact hf hc rfl
  · have hi : m.execute keypad dice (.addByte x b) =
        .ok { machine := m.withRegister x (m.register x + b) } := rfl
    obtain ⟨honly, hregister⟩ := onlyRegisters_step keypad dice h hw hi rfl
    refine ⟨honly, ?_, fun z hz => ?_⟩
    · rw [hregister, register_withRegister, if_pos rfl, UInt8.toNat_add]
    · rw [hregister, register_withRegister, if_neg (Ne.symm hz)]

/-- A machine with 200 in the flag register, whose program adds that to itself. -/
def doubling : Machine :=
  (((new {}).load [0x8f, 0xf4]).machine).withRegister 0xf 200

/-- The flag register keeps the flag of its own addition: 200 and 200 are 144 and a carry. -/
theorem arithmetic_exact_doubling :
    doubling.IsActive ∧ (doubling.step Keypad.idle 0).machine.register 0xf = 1 := by
  have hactive : doubling.IsActive := ⟨rfl, rfl⟩
  have hrom : doubling.memory.HoldsOnly [0x8f, 0xf4] := Memory.holdsOnly_writeAll (by decide)
  have hfetch : doubling.fetch = 0x8ff4 := fetch_of_holdsOnly (k := 0) hrom rfl (by decide)
  obtain ⟨hcalculate, -⟩ := arithmetic_exact hactive Keypad.idle 0 0xf
  obtain ⟨-, result, flag, hyields, hle, -, hflag, -⟩ := hcalculate .add 0xf hfetch
  have hsum : result.toNat + 256 * flag.toNat = 200 + 200 := hyields
  have hresult := result.toNat_lt
  refine ⟨hactive, (hflag rfl).1.trans ?_⟩
  rw [← UInt8.toNat_inj]
  change flag.toNat = 1
  omega

end Machine

end Chip8
