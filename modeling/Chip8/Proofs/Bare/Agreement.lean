import Chip8.Proofs.Bare.Basic
import Chip8.Proofs.Regular

/-!
# Machines as bare machines

Every operation on a regular machine, done with it as a bare machine, comes to an end without a
breakdown and leaves what it leaves on the machine itself. The accesses come first, each with a
lemma that it comes out well and with what; the instructions are put together from them.

* `execute?_bare` and `step?_bare` are the agreement on instructions and steps.
* `perform?_bare` is the agreement on operations.
-/

namespace Chip8

/-! ## Checked accesses -/

namespace Checked

variable {α : Type} {n : Nat}

theorem put?_toList (v : Vector α n) {k : Nat} (h : k < n) (a : α) :
    put? v.toList k a = some (v.set k a).toList := by
  rw [put?, if_pos (by simpa using h), Vector.toList_set]

theorem getElem?_toList (v : Vector α n) {k : Nat} (h : k < n) : v.toList[k]? = some v[k] := by
  rw [List.getElem?_eq_getElem (by simpa using h), Vector.getElem_toList]

theorem first?_of_le {l : List α} {n : Nat} (h : n ≤ l.length) : first? l n = some (l.take n) := by
  rw [first?, if_pos h]

theorem add?_of_lt {a b : UInt16} (h : a.toNat + b.toNat < 65536) : add? a b = some (a + b) := by
  rw [add?, if_pos h]

end Checked

/-- The effect on a machine as an effect on a bare one. -/
def Effect.bare (e : Effect) : Bare.Effect :=
  ⟨e.machine.bare, e.flow, e.events⟩

/-- The report on a machine as a report on a bare one. -/
def Report.bare {α : Type} (r : Report α) : Bare.Report α :=
  ⟨r.answer, r.machine.bare, r.events, r.trace⟩

namespace Machine

/-! ## Memory -/

theorem read?_bare (m : Machine) (a : Nat) : m.bare.read? a = some (m.memory.read a) :=
  Checked.getElem?_toList m.memory.cells (Nat.mod_lt _ (by decide))

theorem write?_bare (m : Machine) (a : Nat) (b : UInt8) :
    m.bare.write? a b = some { m with memory := m.memory.write a b }.bare := by
  rw [Bare.write?]
  show (Checked.put? m.memory.cells.toList (a % 4096) b).bind _ = _
  rw [Checked.put?_toList _ (Nat.mod_lt _ (by decide))]
  rfl

theorem bytes?_bare (m : Machine) (a n : Nat) :
    m.bare.bytes? a n = some (m.memory.bytes a n) := by
  rw [Bare.bytes?, Memory.bytes]
  induction List.range n with
  | nil => rfl
  | cons k ks ih =>
    simp only [List.mapM_cons, ih]
    rw [read?_bare]
    rfl

theorem writeAll?_bare (m : Machine) (a : Nat) (data : List UInt8) :
    m.bare.writeAll? a data = some { m with memory := m.memory.writeAll a data }.bare := by
  induction data generalizing m a with
  | nil => rfl
  | cons b rest ih =>
    rw [Bare.writeAll?, write?_bare]
    exact ih _ _

theorem fetch?_bare (m : Machine) : m.bare.fetch? = some m.fetch := by
  show (m.bare.read? m.pc.toNat).bind
    (fun high => (m.bare.read? (m.pc.toNat + 1)).bind fun low => some (Word.ofBytes high low)) = _
  rw [read?_bare, read?_bare]
  rfl

/-- A block that does not go over the end of memory is written as a part of the list of cells. -/
theorem replace?_cells (memory : Memory) {start stop : Nat} {data : List UInt8}
    (hstop : start + data.length = stop) (h : stop ≤ 4096) :
    Checked.replace? memory.cells.toList start stop data =
      some (memory.writeAll start data).cells.toList := by
  rw [Checked.replace?, if_pos ⟨hstop, by simpa using h⟩]
  congr 1
  refine List.ext_getElem (by simp; omega) fun k hk hk' => ?_
  have hk : k < 4096 := by simpa using hk'
  have hread : (memory.writeAll start data).cells[k] = (memory.writeAll start data).read k := by
    simp only [Memory.read, Nat.mod_eq_of_lt hk]
  have hcell : memory.cells[k] = memory.read k := by
    simp only [Memory.read, Nat.mod_eq_of_lt hk]
  rw [Vector.getElem_toList, hread, Memory.read_writeAll _ _ _ (by omega), ← hcell]
  rcases Nat.lt_or_ge k start with hlt | hge
  · have hd : data.length ≤ Memory.distance start k := by unfold Memory.distance; omega
    rw [List.getElem?_eq_none hd, List.getElem_append_left (by simp; omega),
      List.getElem_append_left (by simp; omega), List.getElem_take, Vector.getElem_toList]
    rfl
  · have hd : Memory.distance start k = k - start := by unfold Memory.distance; omega
    rw [hd]
    rcases Nat.lt_or_ge k stop with hlt | hge'
    · rw [List.getElem_append_left (by simp; omega), List.getElem_append_right (by simp; omega),
        List.getElem?_eq_getElem (by omega)]
      simp only [List.length_take, Vector.length_toList, Option.getD_some]
      congr 1
      omega
    · rw [List.getElem_append_right (by simp; omega), List.getElem?_eq_none (by omega),
        List.getElem_drop, Vector.getElem_toList]
      simp only [List.length_append, List.length_take, Vector.length_toList, Option.getD_none]
      congr 1
      omega

theorem start_add_le_of_le_size {r : Region} {k : Nat} (h : k ≤ r.size) : r.start + k ≤ 4096 := by
  cases r <;> simp only [Region.size, Region.start, Region.stop, memorySize] at h ⊢ <;> omega

theorem withRegion?_bare (m : Machine) {r : Region} {data : List UInt8}
    (h : data.length ≤ r.size) :
    m.bare.withRegion? r data =
      some { m with memory := m.memory.writeAll r.start data }.bare := by
  rw [Bare.withRegion?]
  show (Checked.replace? m.memory.cells.toList r.start (r.start + data.length) data).bind _ = _
  rw [replace?_cells _ rfl (start_add_le_of_le_size h)]
  rfl

theorem freshMemory?_bare (m : Machine) :
    m.bare.freshMemory? = some { m with memory := .fresh }.bare := by
  have hzero : m.bare.cells.map (fun _ => 0) = Memory.zero.cells.toList := by
    show m.memory.cells.toList.map _ = (Vector.replicate 4096 0).toList
    rw [List.map_const', Vector.length_toList, Vector.toList_replicate]
  have hglyphs : Region.charset.start + glyphs.length = Region.charset.stop := rfl
  rw [Bare.freshMemory?, hzero, replace?_cells _ hglyphs (by decide)]
  rfl

/-! ## Registers -/

theorem register?_bare (m : Machine) (x : Fin 16) : m.bare.register? x = some (m.register x) :=
  Checked.getElem?_toList m.registers x.isLt

theorem withRegister?_bare (m : Machine) (x : Fin 16) (b : UInt8) :
    m.bare.withRegister? x b = some (m.withRegister x b).bare := by
  rw [Bare.withRegister?]
  show (Checked.put? m.registers.toList x b).bind _ = _
  rw [Checked.put?_toList _ x.isLt]
  rfl

theorem withFlag?_bare (m : Machine) (flag : Bool) :
    m.bare.withFlag? flag = some (m.withFlag flag).bare :=
  m.withRegister?_bare 0xf _

theorem calculated?_bare (m : Machine) (c : Calculation) (x y : Fin 16) :
    m.bare.calculated? c x y = some (m.calculated c x y).bare := by
  simp only [Bare.calculated?, register?_bare, Option.bind_eq_bind, Option.bind_some,
    withRegister?_bare, calculated]
  generalize c.apply (m.register x) (m.register y) = r
  obtain ⟨result, _ | flag⟩ := r
  · rfl
  · exact withFlag?_bare _ flag

theorem passes?_bare (m : Machine) (keypad : Keypad) (test : Test (Fin 16)) :
    m.bare.passes? keypad (test.map Fin.val) = some (m.passes keypad test) := by
  cases test with
  | byte x b | register x y | key x =>
    simp only [Test.map, Bare.passes?, register?_bare]
    rfl

/-- Values are put into the registers from the one with the number `k` on. -/
theorem withRegisters?_bare (m : Machine) (k : Nat) (values : List UInt8)
    (h : k + values.length ≤ 16) :
    m.bare.withRegisters? k values =
      some { m with
        registers := Vector.ofFn fun r =>
          if k ≤ r then (values[r.val - k]?).getD (m.register r) else m.register r }.bare := by
  induction values generalizing m k with
  | nil =>
    have hregisters : (Vector.ofFn fun r => m.register r) = m.registers := by
      ext r hr
      simp [register]
    simp only [List.getElem?_nil, Option.getD_none, ite_self, hregisters]
    rfl
  | cons v rest ih =>
    rw [List.length_cons] at h
    have hk : k < 16 := by omega
    rw [Bare.withRegisters?]
    show (m.bare.withRegister? (⟨k, hk⟩ : Fin 16) v).bind _ = _
    rw [withRegister?_bare, Option.bind_some, ih _ _ (by omega)]
    have hvalues : (fun r : Fin 16 =>
        if k + 1 ≤ r.val then
          (rest[r.val - (k + 1)]?).getD ((m.withRegister ⟨k, hk⟩ v).register r)
        else (m.withRegister ⟨k, hk⟩ v).register r) =
        fun r : Fin 16 =>
          if k ≤ r then ((v :: rest)[r.val - k]?).getD (m.register r) else m.register r := by
      funext r
      simp only [register_withRegister]
      rcases Nat.lt_trichotomy k r with hlt | heq | hgt
      · have hr : r.val - k = r.val - (k + 1) + 1 := by omega
        have hne : (⟨k, hk⟩ : Fin 16) ≠ r := fun e => by simp [← e] at hlt
        have hle : k + 1 ≤ r.val := hlt
        have hle' : k ≤ r.val := by omega
        rw [if_pos hle, if_neg hne, if_pos hle', hr, List.getElem?_cons_succ]
      · have he : (⟨k, hk⟩ : Fin 16) = r := Fin.ext heq
        have hnle : ¬k + 1 ≤ r.val := by omega
        have hle' : k ≤ r.val := by omega
        rw [if_neg hnle, if_pos he, if_pos hle', heq, Nat.sub_self, List.getElem?_cons_zero]
        rfl
      · have hne : (⟨k, hk⟩ : Fin 16) ≠ r := fun e => by simp [← e] at hgt
        have hnle : ¬k + 1 ≤ r.val := by omega
        have hnle' : ¬k ≤ r.val := by omega
        rw [if_neg hnle, if_neg hne, if_neg hnle']
    rw [hvalues]
    rfl

theorem withBlock?_bare (m : Machine) (x : Fin 16) :
    m.bare.withRegisters? 0 (m.memory.bytes m.index.toNat (x + 1)) =
      some (m.withBlock x).bare := by
  rw [withRegisters?_bare _ _ _ (by rw [Memory.length_bytes]; omega), withBlock]
  congr 4
  funext r
  rw [if_pos (Nat.zero_le _), Nat.sub_zero]
  by_cases h : r ≤ x
  · have hlt : r.val < (m.memory.bytes m.index.toNat (x + 1)).length := by
      rw [Memory.length_bytes]
      omega
    rw [if_pos h, List.getElem?_eq_getElem hlt, Memory.getElem_bytes]
    rfl
  · have hle : (m.memory.bytes m.index.toNat (x + 1)).length ≤ r.val := by
      rw [Memory.length_bytes]
      omega
    rw [if_neg h, List.getElem?_eq_none hle]
    rfl

/-! ## Screen, tone, index -/

theorem drawRows?_rows (s : Screen) (x y : Nat) (sprite : List UInt8) :
    Bare.drawRows? s.rows.toList x y sprite =
      some ((s.drawRows x y sprite).screen.rows.toList, (s.drawRows x y sprite).collision,
        (s.drawRows x y sprite).toggles) := by
  induction sprite generalizing s y with
  | nil => rfl
  | cons b rest ih =>
    have hy : y % 32 < 32 := Nat.mod_lt _ (by decide)
    rw [Bare.drawRows?, Checked.getElem?_toList _ hy]
    show (Checked.put? s.rows.toList (y % 32) (s.rows[y % 32] ^^^ Screen.band b x)).bind _ = _
    rw [Checked.put?_toList _ hy, Option.bind_some]
    show (Bare.drawRows? (s.drawRow x y b).screen.rows.toList x (y + 1) rest).bind _ = _
    rw [ih]
    rfl

theorem drawn?_bare (m : Machine) (x y n : Fin 16) :
    m.bare.drawn? x y n = some (m.drawn x y n).bare := by
  have hn : n.val ≤ (List.replicate 16 (0 : UInt8)).length := by
    rw [List.length_replicate]
    omega
  have hlen : ((List.replicate 16 (0 : UInt8)).take n).length = n.val := by
    rw [List.length_take, Nat.min_eq_left hn]
  simp only [Bare.drawn?, Checked.first?_of_le hn, hlen, Option.bind_eq_bind, Option.bind_some]
  show (m.bare.bytes? m.index.toNat n).bind _ = _
  rw [bytes?_bare, Option.bind_some, register?_bare, Option.bind_some, register?_bare,
    Option.bind_some]
  show (Bare.drawRows? m.screen.rows.toList _ _ _).bind _ = _
  rw [drawRows?_rows, Option.bind_some]
  show (Bare.withFlag? { m with screen := (m.drawing x y n).screen }.bare _).bind _ = _
  rw [withFlag?_bare]
  rfl

theorem indexAdvanced?_bare {m : Machine} (h : m.Regular) (b : UInt8) :
    m.bare.indexAdvanced? b = some (m.indexAdvanced b).bare := by
  have hi := h.index_lt
  have hb := b.toNat_lt
  have hsum : (m.index + b.toUInt16).toNat = m.index.toNat + b.toNat := by
    rw [UInt16.toNat_add, UInt8.toNat_toUInt16]
    simp only [memorySize] at hi
    omega
  have hadd : Checked.add? m.index b.toUInt16 = some (m.index + b.toUInt16) :=
    Checked.add?_of_lt (by rw [UInt8.toNat_toUInt16]; simp only [memorySize] at hi; omega)
  have hflag : (0xfff < m.index + b.toUInt16) ↔ 0xfff < m.index.toNat + b.toNat := by
    rw [UInt16.lt_iff_toNat_lt, hsum]
    rfl
  rw [Bare.indexAdvanced?]
  show (Checked.add? m.index b.toUInt16).bind _ = _
  rw [hadd, Option.bind_some, hsum]
  simp only [hflag]
  unfold indexAdvanced
  show (if m.flags.dialect.keepFlag then some _ else _) = _
  split
  · rfl
  · exact withFlag?_bare { m with index := Word.wrap (m.index.toNat + b.toNat) } _

theorem glyphAddress?_bare {m : Machine} (h : m.Regular) (b : UInt8) :
    m.bare.glyphAddress? b = some (m.glyphAddress b) := by
  have hmul : (5 * (b.toUInt16 % 16)).toNat = 5 * (b.toNat % 16) := by
    rw [UInt16.toNat_mul, UInt16.toNat_mod, UInt8.toNat_toUInt16]
    show 5 * (b.toNat % 16) % 2 ^ 16 = _
    omega
  have hfont : m.font.toNat = 0x50 := by
    rw [h.font_eq]
    rfl
  show Checked.add? m.font _ = _
  rw [Checked.add?_of_lt (by rw [hmul, hfont]; omega)]
  congr 1
  apply UInt16.toNat_inj.1
  rw [toNat_glyphAddress h, UInt16.toNat_add, hmul, hfont]
  omega

theorem pastBlock?_bare (m : Machine) (h : m.index.toNat < memorySize) (x : Fin 16) :
    m.bare.pastBlock? x = some (m.pastBlock x).bare := by
  have hx : (UInt16.ofNat x).toNat = x.val := by
    rw [UInt16.toNat_ofNat']
    omega
  have hone : (1 : UInt16).toNat = 1 := rfl
  simp only [memorySize] at h
  have hfirst : (m.index + UInt16.ofNat x).toNat = m.index.toNat + x := by
    rw [UInt16.toNat_add, hx]
    omega
  have hsum : (m.index + UInt16.ofNat x + 1).toNat = m.index.toNat + x + 1 := by
    rw [UInt16.toNat_add, hfirst, hone]
    omega
  unfold Bare.pastBlock? pastBlock
  show (if m.flags.dialect.keepIndex then some _ else
    (Checked.add? m.index (UInt16.ofNat x)).bind fun sum => (Checked.add? sum 1).bind _) = _
  split
  · rfl
  · rw [Checked.add?_of_lt (by rw [hx]; omega), Option.bind_some,
      Checked.add?_of_lt (by rw [hfirst, hone]; omega), Option.bind_some, hsum]
    rfl

/-! ## Instructions -/

theorem returned_bare (m : Machine) : m.bare.returned = m.returned.map Effect.bare := by
  have hstack : m.bare.stack = m.stack := rfl
  unfold Bare.returned returned
  rw [hstack]
  cases m.stack with
  | nil | cons a rest => rfl

theorem callTo_bare (m : Machine) (a : Fin 4096) :
    m.bare.callTo a = (m.callTo a).map Effect.bare := by
  unfold Bare.callTo callTo
  show (if m.stack.length < stackDepth then _ else _) = _
  split <;> rfl

/-- **An instruction on a regular machine does not break down**, and the bare machine does what the
machine does. -/
theorem execute?_bare {m : Machine} (h : m.Regular) (keypad : Keypad) (dice : UInt8)
    (i : Instruction) :
    m.bare.execute? keypad dice i.written = some ((m.execute keypad dice i).map Effect.bare) := by
  cases i with
  | ret =>
    show some m.bare.returned = _
    rw [returned_bare]
    rfl
  | call a =>
    show some (m.bare.callTo a) = _
    rw [callTo_bare]
    rfl
  | skip expected test =>
    show (m.bare.passes? keypad (test.map Fin.val)).bind _ = _
    rw [passes?_bare]
    rfl
  | setByte x b | random x b | readDelay x =>
    show (m.bare.withRegister? x _).bind _ = _
    rw [withRegister?_bare]
    rfl
  | addByte x b =>
    show (m.bare.register? x).bind (fun v => (m.bare.withRegister? x (v + b)).bind _) = _
    rw [register?_bare, Option.bind_some, withRegister?_bare]
    rfl
  | calculate c x y =>
    show (m.bare.calculated? c x y).bind _ = _
    rw [calculated?_bare]
    rfl
  | setIndex a =>
    have ha : a.val % memorySize = a.val := Nat.mod_eq_of_lt a.isLt
    simp only [Instr.written, Instr.map, Bare.execute?, ha]
    rfl
  | jumpOffset a =>
    show (m.bare.register? (0 : Fin 16)).bind _ = _
    rw [register?_bare]
    rfl
  | draw x y n =>
    show (m.bare.drawn? x y n).bind _ = _
    rw [drawn?_bare]
    rfl
  | setDelay x | setSound x =>
    show (m.bare.register? x).bind _ = _
    rw [register?_bare]
    rfl
  | addIndex x =>
    show (m.bare.register? x).bind (fun v => (m.bare.indexAdvanced? v).bind _) = _
    rw [register?_bare, Option.bind_some, indexAdvanced?_bare h]
    rfl
  | glyph x =>
    show (m.bare.register? x).bind (fun v => (m.bare.glyphAddress? v).bind _) = _
    rw [register?_bare, Option.bind_some, glyphAddress?_bare h]
    rfl
  | decimal x =>
    show (m.bare.register? x).bind
      (fun v => (m.bare.writeAll? m.index.toNat (decimalDigits v)).bind _) = _
    rw [register?_bare, Option.bind_some, writeAll?_bare]
    rfl
  | store x =>
    have hx : x.val + 1 ≤ m.registers.toList.length := by
      rw [Vector.length_toList]
      omega
    show (Checked.first? m.registers.toList (x + 1)).bind
      (fun block => (m.bare.writeAll? m.index.toNat block).bind fun stored =>
        (stored.pastBlock? x).bind _) = _
    rw [Checked.first?_of_le hx, Option.bind_some, writeAll?_bare, Option.bind_some,
      pastBlock?_bare { m with memory := m.memory.writeAll _ _ } h.index_lt]
    rfl
  | load x =>
    have hindex : (m.withBlock x).index.toNat < memorySize := by
      -- without unfolding, the comparison of the indices would evaluate the block
      unfold withBlock
      exact h.index_lt
    show (m.bare.bytes? m.index.toNat (x + 1)).bind
      (fun block => (m.bare.withRegisters? 0 block).bind fun loaded =>
        (loaded.pastBlock? x).bind _) = _
    rw [bytes?_bare, Option.bind_some, withBlock?_bare, Option.bind_some,
      pastBlock?_bare _ hindex]
    rfl
  | clear | jump a | awaitKey x => rfl

/-! ## Operations -/

theorem target_bare_isSome (m : Machine) : m.bare.target.isSome = m.isWaiting := by
  show m.status.target?.isSome = _
  unfold isWaiting
  cases m.status <;> rfl

/-- **A step of a regular machine does not break down.** -/
theorem step?_bare {m : Machine} (h : m.Regular) (keypad : Keypad) (dice : UInt8) :
    m.bare.step? keypad dice = some (m.step keypad dice).bare := by
  unfold Bare.step? step
  rw [target_bare_isSome]
  show (if m.flags.pause || m.isWaiting then _ else m.bare.fetch?.bind _) = _
  split
  · rfl
  · rw [fetch?_bare, Option.bind_some]
    dsimp only
    cases Instruction.ofWord? m.fetch with
    | none => rfl
    | some i =>
      dsimp only
      rw [execute?_bare h]
      cases m.execute keypad dice i with
      | error fault | ok e => rfl

theorem tick_bare (m : Machine) : m.bare.tick = m.tick.bare := by
  unfold Bare.tick tick
  show (if m.flags.pause then _ else _) = _
  split <;> rfl

theorem Regular.step {m : Machine} (h : m.Regular) (keypad : Keypad) (dice : UInt8) :
    (m.step keypad dice).machine.Regular :=
  h.of_change (m.change_step keypad dice)

theorem multistep?_bare {m : Machine} (h : m.Regular) (s : Surroundings) (n : Nat) :
    m.bare.multistep? s n = some (m.multistep s n).bare := by
  induction n generalizing m s with
  | zero =>
    rw [Bare.multistep?, tick_bare, multistep_zero]
  | succ n ih =>
    have hr := h.step s.keypad (s.dice 0)
    rw [Bare.multistep?, step?_bare h, multistep_succ]
    generalize m.step s.keypad (s.dice 0) = r at hr
    obtain ⟨answer, machine, events, trace⟩ := r
    cases answer with
    | error fault => rfl
    | ok =>
      show (machine.bare.multistep? (s.drop 1) n).bind _ = _
      rw [ih hr]
      rfl

theorem reset?_bare (m : Machine) (h : m.rom.length ≤ Region.program.size) :
    m.bare.reset? = some m.reset.bare := by
  have hnot : ¬m.bare.rom.length > Region.program.size := Nat.not_lt.2 h
  let cleared : Machine := { m.reset.machine with memory := m.memory }
  unfold Bare.reset?
  rw [if_neg hnot]
  show (cleared.bare.freshMemory?).bind _ = _
  rw [freshMemory?_bare, Option.bind_some]
  show (Bare.withRegion? { cleared with memory := .fresh }.bare .program m.rom).bind _ = _
  rw [withRegion?_bare _ h]
  rfl

theorem load?_bare (m : Machine) (rom : List UInt8) :
    m.bare.load? rom = some (m.load rom).bare := by
  unfold Bare.load? load
  split
  · rfl
  · rename_i h
    exact reset?_bare { m with rom := rom } (Nat.not_lt.1 h)

theorem deliverKey?_bare (m : Machine) (key : UInt8) :
    m.bare.deliverKey? key = some (m.deliverKey key).bare := by
  unfold Bare.deliverKey? deliverKey
  split
  · rfl
  · have htarget : m.bare.target = m.status.target? := rfl
    rw [htarget]
    cases m.status with
    | running => rfl
    | waiting target =>
      dsimp only [Status.target?]
      rw [withRegister?_bare]
      rfl

theorem setRegister_bare (m : Machine) (register : Nat) (value : UInt8) :
    m.bare.setRegister register value = (m.setRegister register value).bare := by
  unfold Bare.setRegister setRegister
  by_cases h : register < 16
  · rw [dif_pos h]
    have hsome := m.withRegister?_bare ⟨register, h⟩ value
    rw [hsome]
    rfl
  · have hnone : m.bare.withRegister? register value = none := by
      rw [Bare.withRegister?]
      show (Checked.put? m.registers.toList register value).bind _ = _
      rw [Checked.put?, if_neg (by simpa using h)]
      rfl
    rw [hnone, dif_neg h]
    rfl

theorem editMemory?_bare (m : Machine) (edit : Memory.Edit) :
    m.bare.editMemory? edit = some (m.editMemory edit).bare := by
  cases edit with
  | write a b =>
    show (m.bare.write? a b).bind _ = _
    rw [write?_bare]
    rfl
  | load r data =>
    simp only [Bare.editMemory?, editMemory, Memory.Edit.apply, Memory.load]
    split
    · rfl
    · rename_i h
      rw [withRegion?_bare _ (Nat.not_lt.1 h)]
      rfl
  | clear r | fill r b =>
    show (m.bare.withRegion? r (List.replicate r.size _)).bind _ = _
    rw [withRegion?_bare _ (Nat.le_of_eq List.length_replicate)]
    rfl
  | reset =>
    show m.bare.freshMemory?.bind _ = _
    rw [freshMemory?_bare]
    rfl

/-- **No operation on a regular machine breaks down**, and the bare machine does what the machine
does. -/
theorem perform?_bare {m : Machine} (h : m.Regular) (s : Surroundings) (o : Operation) :
    m.bare.perform? s o = some (m.perform s o).bare := by
  cases o with
  | load rom =>
    rw [Bare.perform?, load?_bare]
    rfl
  | reset =>
    rw [Bare.perform?, reset?_bare m h.length_rom_le]
    rfl
  | step =>
    rw [Bare.perform?, step?_bare h]
    rfl
  | multistep n =>
    rw [Bare.perform?, multistep?_bare h]
    rfl
  | tick =>
    rw [Bare.perform?, tick_bare]
    rfl
  | deliverKey key =>
    rw [Bare.perform?, deliverKey?_bare]
    rfl
  | setRegister register value =>
    rw [Bare.perform?, setRegister_bare]
    rfl
  | editMemory edit =>
    rw [Bare.perform?, editMemory?_bare]
    rfl
  | setFlags flags => rfl

end Machine

end Chip8
