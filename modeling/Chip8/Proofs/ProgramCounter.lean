import Chip8.Proofs.Regular

/-!
# The program counter

Where the program goes on after an instruction. There are jumps, calls and returns, the instruction
that waits for a key, and the skips, each of which has a counterpart that skips just when it does
not. All others go on to the next instruction. The program counter may be anywhere, also on an odd
address or at the end of memory.

* `Machine.GoesOn` says where the program should go on, and `Machine.goesOn_step` that it does.
* `Test.Holds` says when a test should come out positive, and `Machine.passes_iff` that it does.
* `Machine.aboutTo_withNext` says that the next instruction can be replaced in memory.
* `Machine.program_counter_exact` puts these together.
-/

namespace Chip8

/-- A test comes out positive: a register holds a byte, or two registers hold the same one, or the
key is held down whose number is the value of a register modulo sixteen. -/
def Test.Holds (m : Machine) (keypad : Keypad) : Test (Fin 16) → Prop
  | .byte x b => m.register x = b
  | .register x y => m.register x = m.register y
  | .key x => ∃ key : Fin 16, key.val = (m.register x).toNat % 16 ∧ keypad.held.get key = true

namespace Machine

/-- The machine `m'` goes on where it should after an instruction of `m`. A skip depends on the
registers before it. A return goes to the address that it takes off the stack. -/
def GoesOn (m : Machine) (keypad : Keypad) (m' : Machine) : Instruction → Prop
  | .jump a | .call a => m'.pc.toNat = a
  | .jumpOffset a => m'.pc.toNat = (a + (m.register 0).toNat) % 4096
  | .ret => m.stack = m'.pc :: m'.stack
  | .awaitKey _ => m'.pc = m.pc
  | .skip expected test =>
    ((test.Holds m keypad ↔ expected = true) → m'.pc.toNat = (m.pc.toNat + 4) % 4096) ∧
      (¬(test.Holds m keypad ↔ expected = true) → m'.pc.toNat = (m.pc.toNat + 2) % 4096)
  | _ => m'.pc.toNat = (m.pc.toNat + 2) % 4096

/-! ## One step -/

section Steps

variable {m : Machine} {keypad : Keypad} {dice : UInt8} {i : Instruction}

theorem passes_iff (m : Machine) (keypad : Keypad) (test : Test (Fin 16)) :
    m.passes keypad test = true ↔ test.Holds m keypad := by
  cases test with
  | byte x b => exact beq_iff_eq
  | register x y => exact beq_iff_eq
  | key x =>
    refine ⟨fun h => ⟨⟨_, Nat.mod_lt _ (by decide)⟩, rfl, h⟩, ?_⟩
    rintro ⟨⟨_, _⟩, rfl, h⟩
    exact h

theorem goesOn_skip (expected : Bool) (test : Test (Fin 16)) :
    m.GoesOn keypad
      (m.advanced
        { machine := m, flow := if m.passes keypad test = expected then .skip else .next })
      (.skip expected test) := by
  have hpasses : m.passes keypad test = expected ↔ (test.Holds m keypad ↔ expected = true) := by
    rw [← passes_iff, Bool.eq_iff_iff]
  refine ⟨fun hholds => ?_, fun hholds => ?_⟩
  · show (Flow.target (if _ then _ else _) m.pc).toNat = _
    rw [if_pos (hpasses.2 hholds)]
    exact Word.toNat_wrap _
  · show (Flow.target (if _ then _ else _) m.pc).toNat = _
    rw [if_neg (mt hpasses.1 hholds)]
    exact Word.toNat_wrap _

/-- **An instruction that comes out well goes on where it should.** -/
theorem goesOn_advanced {e : Effect} (h : m.Regular) (hi : m.execute keypad dice i = .ok e) :
    m.GoesOn keypad (m.advanced e) i := by
  have hjump : ∀ a : Fin 4096, (Word.wrap (UInt16.ofNat a).toNat).toNat = a := by
    intro a
    rw [Word.toNat_wrap, UInt16.toNat_ofNat']
    omega
  cases i with
  | ret =>
    obtain ⟨a, rest, hs, rfl⟩ := returned_eq_ok_iff.1 hi
    have ha : a.toNat < 4096 := h.stack_lt a (by rw [hs]; exact List.mem_cons_self)
    show m.stack = Word.wrap a.toNat :: rest
    rw [hs, Word.wrap_toNat ha]
  | jump a =>
    cases hi
    exact hjump a
  | call a =>
    obtain ⟨-, rfl⟩ := callTo_eq_ok_iff.1 hi
    exact hjump a
  | jumpOffset a =>
    cases hi
    show (Word.wrap (Word.wrap (a + (m.register 0).toNat)).toNat).toNat = _
    rw [Word.wrap_toNat_wrap, Word.toNat_wrap]
  | awaitKey x =>
    cases hi
    exact Word.wrap_toNat h.pc_lt
  | skip expected test =>
    cases hi
    exact goesOn_skip expected test
  | _ =>
    cases hi
    exact Word.toNat_wrap _

theorem goesOn_step (h : m.Regular) (hi : m.AboutTo i)
    (hok : (m.step keypad dice).answer = .ok ()) :
    m.GoesOn keypad (m.step keypad dice).machine i := by
  have hc := m.stepCase keypad dice
  generalize m.step keypad dice = r at hc hok
  cases hc with
  | idle hidle => exact absurd hi.active hidle
  | unknown | failed => cases hok
  | executed _ hw he =>
    obtain rfl := Option.some.inj (hw.symm.trans hi.word)
    exact goesOn_advanced h he

theorem exists_aboutTo (h : m.IsActive) (hok : (m.step keypad dice).answer = .ok ()) :
    ∃ i, m.AboutTo i := by
  have hc := m.stepCase keypad dice
  generalize m.step keypad dice = r at hc hok
  cases hc with
  | idle hidle => exact absurd h hidle
  | unknown | failed => cases hok
  | executed _ hw => exact ⟨_, h, Instruction.ofWord?_eq_some_iff.1 hw⟩

/-- A skip goes on where it should also if the program counter has left memory. -/
theorem goesOn_step_skip {expected : Bool} {test : Test (Fin 16)}
    (h : m.AboutTo (.skip expected test)) :
    m.GoesOn keypad (m.step keypad dice).machine (.skip expected test) := by
  rw [step_of_execute h.active h.word rfl]
  exact goesOn_skip expected test

theorem answer_step_skip {expected : Bool} {test : Test (Fin 16)}
    (h : m.AboutTo (.skip expected test)) : (m.step keypad dice).answer = .ok () := by
  rw [step_of_execute h.active h.word rfl]

end Steps

end Machine

/-! ## Another instruction in the same place -/

/-- A word that has been written is read, also if its second byte stands at the beginning of
memory. -/
theorem Memory.word_writeAll (m : Memory) (a : Nat) (w : UInt16) :
    (m.writeAll a [Word.highByte w, Word.lowByte w]).word a = w := by
  have hne : (a + 1) % 4096 ≠ a % 4096 := by omega
  simp [word, writeAll, read_write, hne, Word.ofBytes_highByte_lowByte]

namespace Machine

/-- The machine with another instruction in memory at the program counter. -/
def withNext (m : Machine) (i : Instruction) : Machine :=
  { m with
    memory := m.memory.writeAll m.pc.toNat [Word.highByte i.word, Word.lowByte i.word] }

theorem aboutTo_withNext {m : Machine} (h : m.IsActive) (i : Instruction) :
    (m.withNext i).AboutTo i :=
  ⟨h, m.memory.word_writeAll _ _⟩

theorem holds_withNext (m : Machine) (i : Instruction) (keypad : Keypad) (test : Test (Fin 16)) :
    test.Holds (m.withNext i) keypad ↔ test.Holds m keypad := by
  cases test <;> exact Iff.rfl

/-- Of two steps from the same address one passes over the next instruction, and the other one goes
on to it. -/
def OneSkips (m : Machine) (r r' : Report Unit) : Prop :=
  r.machine.pc.toNat = (m.pc.toNat + 4) % 4096 ∧ r'.machine.pc.toNat = (m.pc.toNat + 2) % 4096 ∨
    r.machine.pc.toNat = (m.pc.toNat + 2) % 4096 ∧ r'.machine.pc.toNat = (m.pc.toNat + 4) % 4096

/-- **A skip skips just if its counterpart would not.** -/
theorem oneSkips_withNext {m : Machine} (h : m.Regular) (keypad : Keypad) (dice : UInt8)
    {expected : Bool} {test : Test (Fin 16)} (hi : m.AboutTo (.skip expected test)) :
    m.OneSkips (m.step keypad dice) ((m.withNext (.skip (!expected) test)).step keypad dice) := by
  have hi' : (m.withNext (.skip (!expected) test)).AboutTo (.skip (!expected) test) :=
    aboutTo_withNext hi.active _
  have hopposite : ((test.Holds m keypad ↔ (!expected) = true)) ↔
      ¬(test.Holds m keypad ↔ expected = true) := by
    cases expected <;> simp
  obtain ⟨hskip, hnext⟩ := goesOn_step h hi (answer_step_skip hi)
  obtain ⟨hskip', hnext'⟩ := goesOn_step (m := m.withNext _) { h with } hi' (answer_step_skip hi')
  rw [holds_withNext, hopposite] at hskip' hnext'
  by_cases hholds : test.Holds m keypad ↔ expected = true
  · exact .inl ⟨hskip hholds, hnext' (not_not_intro hholds)⟩
  · exact .inr ⟨hnext hholds, hskip' hholds⟩

/-- **The program counter is exact.** On every machine that a run has brought about, a step of an
active machine that comes out well executes an instruction and goes on where it should.

Let the next instruction be a skip, and put the skip with the same test and the other outcome in its
place. Then both machines make their step, and just one of them skips. -/
theorem program_counter_exact (flags : Flags) (actions : List Action) (keypad : Keypad)
    (dice : UInt8) :
    let m := ((new flags).run actions).machine
    let r := m.step keypad dice
    (m.IsActive → r.answer = .ok () → ∃ i, m.fetch = i.word ∧ m.GoesOn keypad r.machine i) ∧
    ∀ expected test, m.AboutTo (.skip expected test) →
      let other := m.withNext (.skip (!expected) test)
      let r' := other.step keypad dice
      other.AboutTo (.skip (!expected) test) ∧ r.answer = .ok () ∧ r'.answer = .ok () ∧
        m.OneSkips r r' := by
  intro m r
  have h : m.Regular := regular_run flags actions
  refine ⟨fun hactive hok => ?_, fun expected test hi => ?_⟩
  · obtain ⟨i, hi⟩ := exists_aboutTo hactive hok
    exact ⟨i, hi.fetch, goesOn_step h hi hok⟩
  · have hi' := aboutTo_withNext hi.active (.skip (!expected) test)
    exact ⟨hi', answer_step_skip hi, answer_step_skip hi', oneSkips_withNext h keypad dice hi⟩

end Machine

end Chip8
