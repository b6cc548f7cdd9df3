import Chip8.Proofs.FatalFault

/-!
# What instructions write

Every instruction leaves most of the machine as it is. `Footprint` says for each part of the machine
which instructions can change it, and for memory and registers which cells and which registers.

* `Memory.InBlock` are the cells of a block, counted round the end of memory.
* `Instr.writeCount` and `Instr.WritesRegister` say which cells and which registers an instruction
  writes; `register_of_execute` says that it leaves the other registers alone.
* `Moment.Executes.footprint` puts the parts together.
* `Machine.write_footprint` adds what follows for runs: a cell that has changed was written.
-/

namespace Chip8

/-! ## Blocks of memory -/

namespace Memory

/-- The cell `c` is one of `n` cells from the address `a` on, counted round the end of memory. -/
def InBlock (a n : Nat) (c : Fin 4096) : Prop :=
  ∃ k < n, c.val = (a + k) % 4096

theorem read_writeAll_of_not_inBlock (m : Memory) {a : Nat} {data : List UInt8} {c : Fin 4096}
    (h : ¬InBlock a data.length c) : (m.writeAll a data).read c = m.read c := by
  induction data generalizing m a with
  | nil => rfl
  | cons b rest ih =>
    have hrest : ¬InBlock (a + 1) rest.length c := by
      rintro ⟨k, hk, hc⟩
      exact h ⟨k + 1, Nat.succ_lt_succ hk, by rw [hc, Nat.add_assoc, Nat.add_comm 1]⟩
    have hne : a % 4096 ≠ c.val % 4096 := by
      intro hc
      exact h ⟨0, Nat.succ_pos _, by rw [Nat.add_zero, hc, Nat.mod_eq_of_lt c.isLt]⟩
    rw [writeAll, ih _ hrest, read_write, if_neg hne]

/-- A written block holds its bytes. -/
theorem read_writeAll_add (m : Memory) (a : Nat) {data : List UInt8} (h : data.length ≤ 4096)
    {k : Nat} (hk : k < data.length) : (m.writeAll a data).read ((a + k) % 4096) = data[k] := by
  have hdistance : distance a (a + k) = k := by
    unfold distance
    omega
  rw [read_mod, read_writeAll _ _ _ h, hdistance, List.getElem?_eq_getElem hk]
  rfl

end Memory

/-! ## What an instruction writes -/

/-- Whether a calculation has a flag. -/
def Calculation.hasFlag : Calculation → Bool
  | copy | bitOr | bitAnd | bitXor => false
  | add | subtract | shiftRight | subtractFrom | shiftLeft => true

namespace Instr

/-- The number of cells from the index on that an instruction writes. -/
def writeCount : Instruction → Nat
  | .decimal _ => 3
  | .store x => x + 1
  | _ => 0

/-- Whether an instruction writes the register `z`. -/
def WritesRegister (d : Dialect) (z : Fin 16) : Instruction → Prop
  | .setByte x _ | .addByte x _ | .random x _ | .readDelay x => z = x
  | .calculate c x _ => z = x ∨ z = 0xf ∧ c.hasFlag = true
  | .draw _ _ _ => z = 0xf
  | .addIndex _ => z = 0xf ∧ d.keepFlag = false
  | .load x => z ≤ x
  | _ => False

end Instr

namespace Machine

theorem register_calculated (m : Machine) {c : Calculation} {x y z : Fin 16}
    (h : ¬(z = x ∨ z = 0xf ∧ c.hasFlag = true)) :
    (m.calculated c x y).register z = m.register z := by
  obtain ⟨hx, hf⟩ := not_or.1 h
  have hresult : ∀ b, (m.withRegister x b).register z = m.register z := fun b => by
    rw [register_withRegister, if_neg (Ne.symm hx)]
  have hflag : c.hasFlag = true → ∀ b f,
      ((m.withRegister x b).withFlag f).register z = m.register z := by
    intro hc b f
    rw [register_withFlag, if_neg fun hz => hf ⟨hz, hc⟩, hresult]
  cases c with
  | copy | bitOr | bitAnd | bitXor => exact hresult _
  | add | subtract | shiftRight | subtractFrom | shiftLeft => exact hflag rfl _ _

theorem register_indexAdvanced (m : Machine) {b : UInt8} {z : Fin 16}
    (h : ¬(z = 0xf ∧ m.flags.dialect.keepFlag = false)) :
    (m.indexAdvanced b).register z = m.register z := by
  unfold indexAdvanced
  dsimp only
  split
  · rfl
  · rename_i hkeep
    rw [register_withFlag, if_neg fun hz => h ⟨hz, Bool.eq_false_iff.2 hkeep⟩]
    rfl

/-- The registers up to `x` are read from memory, and the others keep what they hold. -/
theorem register_withBlock (m : Machine) (x z : Fin 16) :
    (m.withBlock x).register z =
      if z ≤ x then m.memory.read (m.index.toNat + z) else m.register z := by
  simp only [withBlock, register, Fin.getElem_fin, Vector.getElem_ofFn, Fin.eta]

theorem register_pastBlock (m : Machine) (x z : Fin 16) :
    (m.pastBlock x).register z = m.register z := by
  rw [pastBlock_eq]
  rfl

/-- An instruction leaves the registers alone that it does not write. -/
theorem register_of_execute {m : Machine} {keypad : Keypad} {dice : UInt8} {i : Instruction}
    {e : Effect} (h : m.execute keypad dice i = .ok e) {z : Fin 16}
    (hz : ¬i.WritesRegister m.flags.dialect z) : e.machine.register z = m.register z := by
  cases i with
  | ret =>
    obtain ⟨a, rest, -, rfl⟩ := returned_eq_ok_iff.1 h
    rfl
  | call a =>
    obtain ⟨-, rfl⟩ := callTo_eq_ok_iff.1 h
    rfl
  | setByte x b | addByte x b | random x b | readDelay x =>
    cases h
    exact (m.register_withRegister x z _).trans (if_neg (Ne.symm hz))
  | calculate c x y =>
    cases h
    exact m.register_calculated hz
  | draw x y n =>
    cases h
    exact (register_withFlag _ z _).trans (if_neg hz)
  | addIndex x =>
    cases h
    exact m.register_indexAdvanced hz
  | load x =>
    cases h
    exact (register_pastBlock _ x z).trans ((m.register_withBlock x z).trans (if_neg hz))
  | store x =>
    cases h
    exact register_pastBlock _ x z
  | _ =>
    cases h
    rfl

/-! ## Digits -/

theorem toNat_digit (v d : UInt8) : (v / d % 10).toNat = v.toNat / d.toNat % 10 := by
  rw [UInt8.toNat_mod, UInt8.toNat_div]
  rfl

/-- The three digits of a byte are digits, and make the byte. -/
theorem exists_decimalDigits_eq (v : UInt8) :
    ∃ a b c : UInt8, decimalDigits v = [a, b, c] ∧ (a ≤ 9 ∧ b ≤ 9 ∧ c ≤ 9) ∧
      100 * a.toNat + 10 * b.toNat + c.toNat = v.toNat := by
  have hv := v.toNat_lt
  have hhundreds := toNat_digit v 100
  have htens := toNat_digit v 10
  have hones : (v % 10).toNat = v.toNat % 10 := UInt8.toNat_mod v 10
  simp only [UInt8.reduceToNat] at hhundreds htens
  refine ⟨v / 100 % 10, v / 10 % 10, v % 10, rfl, ?_, by omega⟩
  simp only [UInt8.le_iff_toNat_le, UInt8.reduceToNat]
  omega

/-! ## Memory -/

theorem length_block (m : Machine) (x : Fin 16) : (m.block x).length = x + 1 := by
  have hx := x.isLt
  rw [block, List.length_take, Vector.length_toList]
  omega

theorem getElem_block (m : Machine) {x r : Fin 16} (h : r.val < (m.block x).length) :
    (m.block x)[r.val] = m.register r := by
  simp only [block, List.getElem_take, Vector.getElem_toList, register, Fin.getElem_fin]

/-- Registers that are written to memory stand there in order. -/
theorem read_writeAll_block (m : Machine) (memory : Memory) (a : Nat) {x z : Fin 16} (h : z ≤ x) :
    (memory.writeAll a (m.block x)).read ((a + z) % 4096) = m.register z := by
  have hx := x.isLt
  have hlength := m.length_block x
  have hlt : z.val < (m.block x).length := by
    rw [hlength]
    exact Nat.lt_succ_of_le h
  rw [Memory.read_writeAll_add _ _ (by omega) hlt, getElem_block]

theorem read_memoryAfter (m : Machine) {i : Instruction} {c : Fin 4096}
    (h : ¬Memory.InBlock m.index.toNat i.writeCount c) :
    (m.memoryAfter i).read c = m.memory.read c := by
  cases i with
  | decimal x => exact Memory.read_writeAll_of_not_inBlock _ h
  | store x =>
    refine Memory.read_writeAll_of_not_inBlock _ ?_
    rw [length_block]
    exact h
  | _ => rfl

end Machine

/-! ## The footprint -/

/-- What the instruction `i` may change: the machine `m` before and the machine `m'` after it are
alike in all else. -/
structure Footprint (m : Machine) (i : Instruction) (m' : Machine) : Prop where
  /-- The digits of a register stand in memory. -/
  decimal : ∀ x, i = .decimal x → ∃ a b c : UInt8, a ≤ 9 ∧ b ≤ 9 ∧ c ≤ 9 ∧
    100 * a.toNat + 10 * b.toNat + c.toNat = (m.register x).toNat ∧
    m'.memory.read (m.index.toNat % 4096) = a ∧
    m'.memory.read ((m.index.toNat + 1) % 4096) = b ∧
    m'.memory.read ((m.index.toNat + 2) % 4096) = c
  /-- The registers up to `x` stand in memory. -/
  store : ∀ x, i = .store x → ∀ r ≤ x,
    m'.memory.read ((m.index.toNat + r) % 4096) = m.register r
  read : ∀ c : Fin 4096, ¬Memory.InBlock m.index.toNat i.writeCount c →
    m'.memory.read c = m.memory.read c
  memory : (∀ x, i ≠ .decimal x ∧ i ≠ .store x) → m'.memory = m.memory
  stack : (∀ a, i ≠ .call a ∧ i ≠ .ret) → m'.stack = m.stack
  screen : (∀ x y n, i ≠ .clear ∧ i ≠ .draw x y n) → m'.screen = m.screen
  delay : (∀ x, i ≠ .setDelay x) → m'.timers.delay = m.timers.delay
  sound : (∀ x, i ≠ .setSound x) → m'.timers.sound = m.timers.sound
  status : (∀ x, i ≠ .awaitKey x) → m'.status = m.status
  index : (∀ a x, i ≠ .setIndex a ∧ i ≠ .addIndex x ∧ i ≠ .glyph x) →
    (m.flags.dialect.keepIndex = false → ∀ x, i ≠ .store x ∧ i ≠ .load x) → m'.index = m.index
  register : ∀ z, ¬i.WritesRegister m.flags.dialect z → m'.register z = m.register z
  rom : m'.rom = m.rom
  font : m'.font = m.font
  flags : m'.flags = m.flags

namespace Moment

/-- **An instruction that is executed leaves its footprint** and nothing else. -/
theorem Executes.footprint {t : Moment} {i : Instruction} (h : t.Executes i) :
    Footprint t.machine i t.report.machine where
  decimal := by
    rintro x rfl
    obtain ⟨a, b, c, hdigits, ⟨ha, hb, hc⟩, hsum⟩ :=
      Machine.exists_decimalDigits_eq (t.machine.register x)
    have hmemory : t.report.machine.memory =
        t.machine.memory.writeAll t.machine.index.toNat [a, b, c] := by
      rw [h.machine_eq, ← hdigits]
      rfl
    have hread : ∀ k (hk : k < 3),
        t.report.machine.memory.read ((t.machine.index.toNat + k) % 4096) = [a, b, c][k] := by
      intro k hk
      rw [hmemory]
      have hlength : [a, b, c].length ≤ 4096 := by simp
      exact Memory.read_writeAll_add _ _ hlength hk
    exact ⟨a, b, c, ha, hb, hc, hsum, hread 0 (by decide), hread 1 (by decide),
      hread 2 (by decide)⟩
  store := by
    rintro x rfl r hr
    have hmemory : t.report.machine.memory =
        t.machine.memory.writeAll t.machine.index.toNat (t.machine.block x) := by
      rw [h.machine_eq]
      rfl
    rw [hmemory, Machine.read_writeAll_block _ _ _ hr]
  read := by
    intro c hc
    rw [h.machine_eq]
    exact t.machine.read_memoryAfter hc
  memory := by
    intro hi
    rw [h.machine_eq]
    cases i with
    | decimal x => exact absurd rfl (hi x).1
    | store x => exact absurd rfl (hi x).2
    | _ => rfl
  stack := by
    intro hi
    rw [h.machine_eq]
    cases i with
    | call a => exact absurd rfl (hi a).1
    | ret => exact absurd rfl (hi 0).2
    | _ => rfl
  screen := by
    intro hi
    rw [h.machine_eq]
    cases i with
    | clear => exact absurd rfl (hi 0 0 0).1
    | draw x y n => exact absurd rfl (hi x y n).2
    | _ => rfl
  delay := by
    intro hi
    rw [h.machine_eq]
    cases i with
    | setDelay x => exact absurd rfl (hi x)
    | _ => rfl
  sound := by
    intro hi
    rw [h.machine_eq]
    cases i with
    | setSound x => exact absurd rfl (hi x)
    | _ => rfl
  status := by
    intro hi
    rw [h.machine_eq]
    cases i with
    | awaitKey x => exact absurd rfl (hi x)
    | _ => rfl
  index := by
    intro hi hkeep
    rw [h.machine_eq]
    cases i with
    | setIndex a => exact absurd rfl (hi a 0).1
    | addIndex x => exact absurd rfl (hi 0 x).2.1
    | glyph x => exact absurd rfl (hi 0 x).2.2
    | store x =>
      show (if _ then _ else _) = _
      split
      · rfl
      · rename_i hk
        exact absurd rfl (hkeep (Bool.eq_false_iff.2 hk) x).1
    | load x =>
      show (if _ then _ else _) = _
      split
      · rfl
      · rename_i hk
        exact absurd rfl (hkeep (Bool.eq_false_iff.2 hk) x).2
    | _ => rfl
  register := by
    intro z hz
    obtain ⟨e, hi, hm⟩ := h.exists_effect
    rw [hm]
    exact Machine.register_of_execute hi hz
  rom := by rw [h.machine_eq]
  font := by rw [h.machine_eq]
  flags := by rw [h.machine_eq]

/-- An instruction that is executed writes the cell `c`. -/
def Writes (t : Moment) (c : Fin 4096) : Prop :=
  ∃ i, t.Executes i ∧ Memory.InBlock t.machine.index.toNat i.writeCount c

/-- A single action leaves a cell as it is, unless an instruction writes it, or the host does. -/
theorem read_report {t : Moment} (hs : t.action.operation.IsSingle)
    (hk : t.action.operation.KeepsProgram) {c : Fin 4096} (h : ¬t.Writes c) :
    t.report.machine.memory.read c = t.machine.memory.read c := by
  obtain ⟨m, s, o⟩ := t
  cases o with
  | load rom | reset | editMemory edit => exact hk.elim
  | multistep n => exact hs.elim
  | step =>
    rcases executes_or_unchanged m s with ⟨i, hi⟩ | ⟨hmachine, -⟩
    · exact hi.footprint.read c fun hc => h ⟨i, hi, hc⟩
    · rw [hmachine]
  | tick =>
    show m.tick.machine.memory.read c = m.memory.read c
    rw [Machine.machine_tick]
  | deliverKey key =>
    show (m.deliverKey key).machine.memory.read c = m.memory.read c
    rw [Machine.machine_deliverKey]
  | setRegister register value =>
    show (m.setRegister register value).machine.memory.read c = m.memory.read c
    rw [Machine.machine_setRegister]
  | setFlags flags => rfl

end Moment

namespace Machine

theorem read_run_of_not_writes {m : Machine} {actions : List Action}
    (hk : ∀ a ∈ actions, a.operation.KeepsProgram) {c : Fin 4096}
    (h : ∀ t ∈ m.moments actions, ¬t.Writes c) :
    (m.run actions).machine.memory.read c = m.memory.read c := by
  refine moments_induction
    (P := fun m moments r =>
      (∀ t ∈ moments, t.action.operation.KeepsProgram) → (∀ t ∈ moments, ¬t.Writes c) →
        r.machine.memory.read c = m.memory.read c)
    (fun m _ _ => rfl) (fun {t _ _} hs hrest hk h => ?_) m actions
    (forall_mem_moments trivial trivial hk) h
  have hfirst := Moment.read_report hs (hk t List.mem_cons_self) (h t List.mem_cons_self)
  refine Eq.trans ?_ hfirst
  exact hrest (fun u hu => hk u (List.mem_cons_of_mem _ hu))
    fun u hu => h u (List.mem_cons_of_mem _ hu)

/-- **Instructions write no more than their footprint.** A step that comes out well either finds the
machine paused or waiting and leaves it as it is, or it executes an instruction and leaves its
footprint. So, whatever is done with a machine apart from the host's own changes to its program and
memory, a cell that differs afterwards was written by an instruction in between. -/
theorem write_footprint (m : Machine) :
    (∀ s, let t : Moment := ⟨m, s, .step⟩
      t.report.answer = .ok none →
        ¬m.IsActive ∧ t.report.machine = m ∨
          ∃ i, t.Executes i ∧ Footprint m i t.report.machine) ∧
    ∀ actions, (∀ a ∈ actions, a.operation.KeepsProgram) →
      ∀ c : Fin 4096, (m.run actions).machine.memory.read c ≠ m.memory.read c →
        ∃ t ∈ m.moments actions, t.Writes c := by
  refine ⟨fun s => ?_, fun actions hk c hne => ?_⟩
  · intro t hok
    rcases Moment.executes_or_unchanged m s with ⟨i, hi⟩ | ⟨hmachine, -, hactive⟩
    · exact .inr ⟨i, hi, hi.footprint⟩
    · exact .inl ⟨hactive hok, hmachine⟩
  · refine Classical.byContradiction fun hnone => hne (read_run_of_not_writes hk fun t ht hw => ?_)
    exact hnone ⟨t, ht, hw⟩

end Machine

end Chip8
