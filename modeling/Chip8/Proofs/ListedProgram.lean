import Chip8.Listing
import Chip8.Proofs.Disassembly
import Chip8.Proofs.Footprint
import Chip8.Proofs.Restart

/-!
# Listings and the machine

A listing is made from the bytes of a file, and the machine reads its memory. The two come to the
same: what stands in a line is what the machine finds at the address of the line, for as long as
nobody writes there.

* `Listing.getElem?_lines_eq_some_iff` says which lines there are, and `Listing.lines_suffix` that a
  later offset leaves off lines at the front.
* `Moment.Overwrites` says when a cell of memory is overwritten, and `Machine.holdsByte_run` that a
  byte of the program stays where it is until then.
* `Listing.Line.TrueOf` is what a line says of a machine, and `Listing.listing_agrees` puts all this
  together.
-/

namespace Chip8

open Text

namespace Listing

/-! ## The lines -/

theorem length_lt_two {bytes : List UInt8}
    (h : ∀ high low rest, bytes = high :: low :: rest → False) : bytes.length < 2 := by
  match bytes, h with
  | [], _ | [_], _ => simp
  | high :: low :: rest, h => exact absurd rfl (h high low rest)

theorem length_linesFrom (address : Nat) (bytes : List UInt8) :
    (linesFrom address bytes).length = bytes.length / 2 := by
  fun_induction linesFrom address bytes with
  | case1 address high low rest ih =>
    simp only [List.length_cons, ih]
    omega
  | case2 bytes address hshort =>
    have hlt := length_lt_two hshort
    simp only [List.length_nil]
    omega

/-- **Each line shows two bytes**, the one with the number `k` those at `2 * k`. -/
theorem getElem?_linesFrom_eq_some_iff {address : Nat} {bytes : List UInt8} {k : Nat} {l : Line} :
    (linesFrom address bytes)[k]? = some l ↔
      ∃ high low, bytes[2 * k]? = some high ∧ bytes[2 * k + 1]? = some low ∧
        l = ⟨(address + 2 * k) % memorySize, Word.ofBytes high low⟩ := by
  fun_induction linesFrom address bytes generalizing k with
  | case1 address high low rest ih =>
    cases k with
    | zero => simp [eq_comm]
    | succ k =>
      have hnext : address + 2 * (k + 1) = address + 2 + 2 * k := by omega
      rw [List.getElem?_cons_succ, ih, hnext]
      rfl
  | case2 bytes address hshort =>
    have hlength := length_lt_two hshort
    simp only [List.getElem?_nil, reduceCtorEq, false_iff, not_exists, not_and]
    intro high low _ hlow
    obtain ⟨hlt, -⟩ := List.getElem?_eq_some_iff.1 hlow
    omega

/-- Pairs of bytes at the front are lines at the front. -/
theorem linesFrom_append (address : Nat) {front : List UInt8} (h : front.length % 2 = 0)
    (back : List UInt8) :
    linesFrom address (front ++ back) =
      linesFrom address front ++ linesFrom (address + front.length) back := by
  fun_induction linesFrom address front with
  | case1 address high low rest ih =>
    have hrest : rest.length % 2 = 0 := by
      simp only [List.length_cons] at h
      omega
    have hnext : address + (high :: low :: rest).length = address + 2 + rest.length := by
      simp only [List.length_cons]
      omega
    rw [List.cons_append, List.cons_append, linesFrom, ih hrest, hnext, List.cons_append]
  | case2 front address hshort =>
    have hlt := length_lt_two hshort
    have hnil : front = [] := List.length_eq_zero_iff.1 (by omega)
    rw [hnil]
    rfl

variable (loadAddress offset : Nat) (program : List UInt8)

theorem length_lines :
    (lines loadAddress offset program).length =
      (program.length - min program.length offset) / 2 := by
  rw [lines, length_linesFrom, List.length_drop]

/-- **The line with the number `k`** shows the two bytes `2 * k` behind the offset. -/
theorem getElem?_lines_eq_some_iff {k : Nat} {l : Line} :
    (lines loadAddress offset program)[k]? = some l ↔
      ∃ high low, program[offset + 2 * k]? = some high ∧
        program[offset + 2 * k + 1]? = some low ∧
        l = ⟨(loadAddress + offset + 2 * k) % memorySize, Word.ofBytes high low⟩ := by
  rw [lines, getElem?_linesFrom_eq_some_iff]
  rcases Nat.le_total offset program.length with hle | hle
  · simp only [Nat.min_eq_right hle, List.getElem?_drop, Nat.add_assoc]
  · -- behind the end there is no byte on either side
    have hnone : program[offset + 2 * k]? = none := List.getElem?_eq_none (by omega)
    simp [Nat.min_eq_left hle, hnone]

/-- A later offset leaves off lines at the front, if it is later by pairs of bytes. -/
theorem lines_suffix {offset' : Nat} (hle : offset' ≤ offset) (heven : (offset - offset') % 2 = 0) :
    lines loadAddress offset program <:+ lines loadAddress offset' program := by
  rcases Nat.lt_or_ge program.length offset with hlt | hin
  · have hnone : lines loadAddress offset program = [] := by
      rw [← List.length_eq_zero_iff, length_lines]
      omega
    rw [hnone]
    exact List.nil_suffix
  · have hfront : ((program.drop offset').take (offset - offset')).length = offset - offset' := by
      rw [List.length_take, List.length_drop]
      omega
    have hsplit : program.drop offset' =
        (program.drop offset').take (offset - offset') ++ program.drop offset := by
      have hback : (program.drop offset').drop (offset - offset') = program.drop offset := by
        rw [List.drop_drop, Nat.add_sub_cancel' hle]
      rw [← hback, List.take_append_drop]
    have haddress : loadAddress + offset' + (offset - offset') = loadAddress + offset := by omega
    have hlater : lines loadAddress offset' program =
        linesFrom (loadAddress + offset') (program.drop offset') := by
      rw [lines, Nat.min_eq_right (Nat.le_trans hle hin)]
    rw [hlater, hsplit, linesFrom_append _ (by rw [hfront, heven]), hfront, haddress, lines,
      Nat.min_eq_right hin]
    exact List.suffix_append _ _

/-! ## Their texts -/

/-- The palette of a listing, with or without colours. -/
def palette (plain : Bool) : Palette :=
  if plain then .plain else .standard

/-- The address and the disassembly of a line. -/
def Line.shown (p : Palette) (l : Line) : String :=
  hex 3 l.address ++ ": " ++ disassemble p l.word

/-- The text of a line without its end: what it shows, and the digits of the word. -/
def Line.body (plain : Bool) (l : Line) : String :=
  l.shown (palette plain) ++ " "
    ++ (if plain then hex 4 l.word.toNat else Colour.brightBlack.tint (hex 4 l.word.toNat))

theorem Line.text_eq_body (plain : Bool) (l : Line) : l.text plain = l.body plain ++ "\n" := by
  cases plain <;> simp [text, body, shown, palette, String.append_assoc]

theorem Line.oneLine_body (plain : Bool) (l : Line) : OneLine (l.body plain) := by
  have hcolon : OneLine ": " := by decide
  have hblank : OneLine " " := by decide
  cases plain <;> simp [body, shown, hcolon, hblank]

/-! ## What a line says of a machine -/

/-- What a line says of a machine. Its word stands at its address. If the machine comes there with
the trace on, the line of the trace shows the same as the listing in colours, with a number in front
and blanks behind it. And the machine does not know the instruction just if the line, in colours or
not, shows that the word is none. -/
structure Line.TrueOf (l : Line) (m : Machine) : Prop where
  word : m.memory.word l.address = l.word
  trace : ∀ keypad dice, m.IsActive → m.pc.toNat = l.address → m.flags.debug = true →
    ∃ blanks, (m.step keypad dice).trace.map TraceLine.text =
      [Colour.brightBlack.tint (column 3 m.cycle) ++ " " ++ l.shown .standard
        ++ String.ofList (List.replicate blanks ' ') ++ "\n"]
  unknown : ∀ keypad dice, m.IsActive → m.pc.toNat = l.address → ∀ plain,
    (∃ word address, (m.step keypad dice).answer = .error (.unknownInstruction word address)) ↔
      DisassemblesInvalid (palette plain) l.word

end Listing

/-- A line of the trace shows what a listing in colours shows. -/
theorem TraceLine.text_eq_shown (t : TraceLine) :
    ∃ blanks, t.text =
      Colour.brightBlack.tint (column 3 t.cycle) ++ " "
        ++ Listing.Line.shown .standard ⟨t.pc.toNat, t.word⟩
        ++ String.ofList (List.replicate blanks ' ') ++ "\n" := by
  obtain ⟨blanks, hpadded⟩ : ∃ blanks, padded 36 (disassemble .standard t.word) =
      disassemble .standard t.word ++ String.ofList (List.replicate blanks ' ') := by
    refine ⟨36 - (disassemble .standard t.word).toList.length, ?_⟩
    rw [padded, List.rightpad, String.ofList_append, String.ofList_toList]
  refine ⟨blanks, ?_⟩
  rw [text, hpadded]
  simp only [Listing.Line.shown, String.append_assoc]

namespace Machine

theorem execute_ne_unknownInstruction (m : Machine) (keypad : Keypad) (dice : UInt8)
    (i : Instruction) (word address : UInt16) :
    m.execute keypad dice i ≠ .error (.unknownInstruction word address) := by
  cases i with
  | call a =>
    simp only [execute, callTo]
    split <;> simp
  | ret =>
    simp only [execute, returned]
    split <;> simp
  | _ => simp [execute]

theorem exists_unknownInstruction_iff {m : Machine} (h : m.IsActive) (keypad : Keypad)
    (dice : UInt8) :
    (∃ word address, (m.step keypad dice).answer = .error (.unknownInstruction word address)) ↔
      Instruction.ofWord? m.fetch = none := by
  rw [step_of_isActive h]
  cases hw : Instruction.ofWord? m.fetch with
  | none => exact iff_of_true ⟨_, _, rfl⟩ rfl
  | some i =>
    refine iff_of_false ?_ nofun
    rintro ⟨word, address, hanswer⟩
    simp only at hanswer
    cases hi : m.execute keypad dice i with
    | error fault =>
      simp only [hi, Except.error.injEq] at hanswer
      exact m.execute_ne_unknownInstruction keypad dice i word address (hanswer ▸ hi)
    | ok e => simp [hi] at hanswer

end Machine

/-- **A line is true of every machine that has its word** at its address. -/
theorem Listing.Line.trueOf_of_word {l : Line} {m : Machine}
    (h : m.memory.word l.address = l.word) : l.TrueOf m := by
  have hfetch : m.pc.toNat = l.address → m.fetch = l.word := by
    intro hpc
    rw [Machine.fetch, hpc, h]
  refine ⟨h, fun keypad dice ha hpc hdebug => ?_, fun keypad dice ha hpc plain => ?_⟩
  · obtain ⟨blanks, htext⟩ := TraceLine.text_eq_shown ⟨m.cycle, m.pc, m.fetch⟩
    refine ⟨blanks, ?_⟩
    rw [m.trace_step ha, Machine.nextLine, if_pos hdebug, List.map_singleton, htext, hfetch hpc,
      hpc]
  · have hpalette : palette plain = .plain ∨ palette plain = .standard := by
      cases plain <;> simp [palette]
    rw [m.exists_unknownInstruction_iff ha, hfetch hpc, disassemblesInvalid_iff hpalette]

/-! ## Cells that are overwritten -/

/-- The cells that a change of the host writes. A block that is refused writes none. -/
def Memory.Edit.Writes (c : Fin 4096) : Memory.Edit → Prop
  | .write a _ => InBlock a 1 c
  | .load r data => data.length ≤ r.size ∧ InBlock r.start data.length c
  | .clear r | .fill r _ => InBlock r.start r.size c
  | .reset => True

/-- The cell `c` is overwritten: by an instruction, by the host, or by a program that is loaded. A
reset brings back the program that was there. -/
inductive Moment.Overwrites (t : Moment) (c : Fin 4096) : Prop
  | instruction (h : t.Writes c)
  | edit {edit : Memory.Edit} (ho : t.action.operation = .editMemory edit) (h : edit.Writes c)
  | program {rom : List UInt8} (h : t.accepted? = some rom)

namespace Machine

theorem read_editMemory {m : Machine} {edit : Memory.Edit} {c : Fin 4096} (h : ¬edit.Writes c) :
    (m.editMemory edit).machine.memory.read c = m.memory.read c := by
  cases edit with
  | write a b =>
    have hblock : ¬Memory.InBlock a [b].length c := h
    exact Memory.read_writeAll_of_not_inBlock _ hblock
  | load r data =>
    rcases Nat.lt_or_ge r.size data.length with hlt | hle
    · simp [editMemory, Memory.Edit.apply, Memory.load, hlt, Report.refused]
    · have hblock : ¬Memory.InBlock r.start data.length c := fun hb => h ⟨hle, hb⟩
      simpa [editMemory, Memory.Edit.apply, Memory.load, Nat.not_lt.2 hle, Report.done] using
        Memory.read_writeAll_of_not_inBlock m.memory hblock
  | clear r | fill r b =>
    refine Memory.read_writeAll_of_not_inBlock _ ?_
    rw [List.length_replicate]
    exact h
  | reset => exact absurd trivial h

/-- The machine remembers the program, and the byte of it with the number `k` is where it was
loaded. -/
structure HoldsByte (m : Machine) (program : List UInt8) (k : Nat) : Prop where
  rom : m.rom = program
  read : program[k]? = some (m.memory.read (Region.program.start + k))

/-- A program that has just been loaded, or brought back, is in memory. -/
theorem holdsByte_reset {m : Machine} (h : m.rom.length ≤ Region.program.size) {k : Nat}
    (hk : k < m.rom.length) : m.reset.machine.HoldsByte m.rom k where
  rom := rfl
  read := by
    rw [List.getElem?_eq_getElem hk, ← (Memory.holdsOnly_writeAll h).rom_eq k hk]
    rfl

/-- **A byte of the program stays where it is**, unless the action overwrites it. -/
theorem HoldsByte.report {t : Moment} {program : List UInt8} {k : Nat}
    (h : t.machine.HoldsByte program k) (hs : t.action.operation.IsSingle)
    (hp : program.length ≤ Region.program.size) {c : Fin 4096}
    (hc : c.val = Region.program.start + k) (hn : ¬t.Overwrites c) :
    t.report.machine.HoldsByte program k := by
  obtain ⟨m, s, o⟩ := t
  have hnone : Moment.accepted? ⟨m, s, o⟩ = none := by
    exact Option.eq_none_iff_forall_ne_some.2 fun rom hrom => hn (.program hrom)
  have hrom : (m.act ⟨s, o⟩).machine.rom = program := by
    rw [m.rom_act hs, hnone]
    exact h.rom
  have hsame : (m.act ⟨s, o⟩).machine.memory.read c = m.memory.read c →
      (m.act ⟨s, o⟩).machine.HoldsByte program k := by
    intro hread
    rw [hc] at hread
    exact ⟨hrom, by rw [hread]; exact h.read⟩
  cases o with
  | load rom =>
    rcases Nat.lt_or_ge Region.program.size rom.length with hlt | hle
    · apply hsame
      show (m.load rom).machine.memory.read c = _
      rw [m.load_of_lt hlt]
      rfl
    · exact absurd (hnone.symm.trans (m.accepted?_load s hle)) nofun
  | reset =>
    obtain ⟨hlt, -⟩ := List.getElem?_eq_some_iff.1 h.read
    obtain rfl := h.rom
    exact holdsByte_reset hp hlt
  | editMemory edit =>
    exact hsame (read_editMemory fun hw => hn (.edit rfl hw))
  | multistep n => exact hs.elim
  | step | tick | deliverKey | setRegister | setFlags =>
    exact hsame (Moment.read_report hs trivial fun hw => hn (.instruction hw))

theorem HoldsByte.run {m : Machine} {program : List UInt8} {k : Nat}
    (h : m.HoldsByte program k) (hp : program.length ≤ Region.program.size) {c : Fin 4096}
    (hc : c.val = Region.program.start + k) {actions : List Action}
    (hn : ∀ t ∈ m.moments actions, ¬t.Overwrites c) :
    (m.run actions).machine.HoldsByte program k := by
  refine moments_induction
    (P := fun m moments r => (∀ t ∈ moments, ¬t.Overwrites c) → m.HoldsByte program k →
      r.machine.HoldsByte program k)
    (fun m _ h => h) (fun {t _ _} hs hrest hn h => ?_) m actions hn h
  exact hrest (fun u hu => hn u (List.mem_cons_of_mem _ hu))
    (h.report hs hp hc (hn t List.mem_cons_self))

end Machine

/-- **The lines of a program that has been loaded are true** until a cell of theirs is
overwritten. -/
theorem Listing.Line.trueOf_run {program : List UInt8} (hp : program.length ≤ Region.program.size)
    (m : Machine) {offset : Nat} {l : Line} (hl : l ∈ lines 0x200 offset program)
    {later : List Action}
    (hn : ∀ t ∈ (m.load program).machine.moments later, ∀ c, Memory.InBlock l.address 2 c →
      ¬t.Overwrites c) :
    l.TrueOf ((m.load program).machine.run later).machine := by
  obtain ⟨k, hk⟩ := List.mem_iff_getElem?.1 hl
  obtain ⟨high, low, hhigh, hlow, rfl⟩ := (getElem?_lines_eq_some_iff _ _ _).1 hk
  obtain ⟨hlt, -⟩ := List.getElem?_eq_some_iff.1 hlow
  have hstart : Region.program.start = 0x200 := rfl
  have hsize : Region.program.size = 3584 := rfl
  have haddress : (0x200 + offset + 2 * k) % memorySize = 0x200 + (offset + 2 * k) := by
    unfold memorySize
    omega
  -- the two bytes of the line are where they were loaded
  have hbyte : ∀ i < 2, ((m.load program).machine.run later).machine.HoldsByte program
      (offset + 2 * k + i) := by
    intro i hi
    have hin : offset + 2 * k + i < program.length := by omega
    have hfirst : (m.load program).machine.HoldsByte program (offset + 2 * k + i) := by
      rw [m.load_of_le hp]
      exact Machine.holdsByte_reset (m := { m with rom := program }) hp hin
    have hcell : 0x200 + (offset + 2 * k + i) < 4096 := by omega
    refine hfirst.run hp (c := ⟨_, hcell⟩) rfl fun t ht => hn t ht _ ⟨i, hi, ?_⟩
    simp only [haddress]
    omega
  have hread : ∀ i < 2, ∀ byte, program[offset + 2 * k + i]? = some byte →
      ((m.load program).machine.run later).machine.memory.read (0x200 + (offset + 2 * k) + i) =
        byte := by
    intro i hi byte hsome
    have hheld := (hbyte i hi).read
    rw [hsome, hstart, ← Nat.add_assoc] at hheld
    exact (Option.some.inj hheld).symm
  apply Line.trueOf_of_word
  rw [Memory.word, haddress, hread 1 (by decide) low hlow]
  exact congrArg (Word.ofBytes · low) (hread 0 (by decide) high hhigh)

/-! ## The theorem -/

/-- **A listing agrees with the machine.** Whatever the program is, its listing has a line for each
pair of bytes from the offset on. A line shows the address that the pair will have, its word with
the high byte first, and the disassembly of that. If the offset is earlier by some pairs, their
lines stand in front, and the others are the same.

Let the program be small enough to be loaded. Then every line is true of the machine as soon as it
is, and of each machine that a run makes of that, as long as nothing overwrites the two cells of the
line. -/
theorem Listing.listing_agrees (program : List UInt8) :
    (∀ settings : Settings,
      let listed := lines settings.loadAddress settings.offset program
      print settings (.ok program) =
        { stdout := String.join (listed.map fun l => l.body settings.plain ++ "\n") } ∧
      (∀ l ∈ listed, OneLine (l.body settings.plain)) ∧
      listed.length = (program.length - min program.length settings.offset) / 2 ∧
      (∀ k l, listed[k]? = some l ↔ ∃ high low,
        program[settings.offset + 2 * k]? = some high ∧
        program[settings.offset + 2 * k + 1]? = some low ∧
        l.address = (settings.loadAddress + settings.offset + 2 * k) % 4096 ∧
        l.word.toNat = 256 * high.toNat + low.toNat) ∧
      ∀ offset ≤ settings.offset, (settings.offset - offset) % 2 = 0 →
        listed <:+ lines settings.loadAddress offset program) ∧
    (program.length ≤ 3584 → ∀ m : Machine,
      let loaded := m.load program
      loaded.answer = .ok () ∧
      ∀ offset, ∀ l ∈ lines 0x200 offset program, ∀ later,
        (∀ t ∈ loaded.machine.moments later, ∀ c, Memory.InBlock l.address 2 c →
          ¬t.Overwrites c) →
        l.TrueOf (loaded.machine.run later).machine) := by
  refine ⟨fun settings => ?_, fun hp m => ?_⟩
  · intro listed
    refine ⟨?_, fun l _ => l.oneLine_body _, length_lines _ _ _, fun k l => ?_,
      fun offset hle heven => lines_suffix _ _ _ hle heven⟩
    · simp only [print, funext (Line.text_eq_body settings.plain)]
      rfl
    · obtain ⟨address, word⟩ := l
      simp only [listed, getElem?_lines_eq_some_iff, Line.mk.injEq, ← UInt16.toNat_inj,
        Word.toNat_ofBytes, memorySize]
  · intro loaded
    refine ⟨(m.answer_load_eq_ok_iff program).2 hp, fun offset l hl later hn => ?_⟩
    exact Line.trueOf_run hp m hl hn

end Chip8
