import Chip8.Instruction.Code

/-!
# Reading and writing words are inverse

* `Word.toNat_eq_address_iff`, `Word.toNat_eq_byte_iff` and `Word.toNat_eq_digits_iff`: the parts of
  a word determine its number.
* `Instruction.ofWord?_word`: an instruction is read back from its word.
* `Instruction.word_of_ofWord?`: a word that is read as an instruction is the word of it.
* `Instruction.ofWord?_eq_some_iff`: so a word is read as the one instruction that has it.
-/

namespace Chip8

/-! ## The parts of a word -/

section Parts

variable {w : UInt16} {group x : Fin 16}

theorem Word.toNat_eq_address_iff {a : Fin 4096} :
    w.toNat = 4096 * group + a ↔ nibble w 3 = group ∧ lowAddress w = a := by
  have hw := w.toNat_lt
  simp only [nibble, lowAddress, Fin.ext_iff]
  omega

theorem Word.toNat_eq_byte_iff {b : UInt8} :
    w.toNat = groupCode group x b.toNat ↔ nibble w 3 = group ∧ nibble w 2 = x ∧ lowByte w = b := by
  have hw := w.toNat_lt
  have hb := b.toNat_lt
  simp only [groupCode, nibble, ← UInt8.toNat_inj, toNat_lowByte, Fin.ext_iff]
  omega

theorem Word.toNat_eq_digits_iff {c d : Fin 16} :
    w.toNat = groupCode group x (16 * c + d) ↔
      nibble w 3 = group ∧ nibble w 2 = x ∧ nibble w 1 = c ∧ nibble w 0 = d := by
  rw [toNat_eq_nibbles, groupCode]
  simp only [Fin.ext_iff]
  omega

end Parts

/-! ## The number of an instruction -/

theorem Instr.code_lt (i : Instruction) : i.code < 65536 := by
  cases i with
  | skip expected test =>
    cases test <;> cases expected <;> simp only [code, groupCode] <;>
      (try have := UInt8.toNat_lt ‹UInt8›) <;> omega
  | setByte x b => have := b.toNat_lt; simp only [code, groupCode]; omega
  | addByte x b => have := b.toNat_lt; simp only [code, groupCode]; omega
  | random x b => have := b.toNat_lt; simp only [code, groupCode]; omega
  | _ => all_goals (simp only [code, groupCode]; omega)

/-- The word of an instruction has its number. -/
theorem Instr.toNat_word (i : Instruction) : i.word.toNat = i.code := by
  have := i.code_lt
  simp only [word, UInt16.toNat_ofNat']
  omega

theorem Instruction.code_of_ofKeyByte? {x : Fin 16} {b : UInt8} {i : Instruction}
    (h : ofKeyByte? x b = some i) : i.code = groupCode 0xe x b.toNat := by
  unfold ofKeyByte? at h
  split at h
  case h_3 => cases h
  all_goals
    rename_i hb
    cases h
    simp [Instr.code, hb]

theorem Instruction.code_of_ofRegisterByte? {x : Fin 16} {b : UInt8} {i : Instruction}
    (h : ofRegisterByte? x b = some i) : i.code = groupCode 0xf x b.toNat := by
  unfold ofRegisterByte? at h
  split at h
  case h_10 => cases h
  all_goals
    rename_i hb
    cases h
    simp [Instr.code, hb]

/-! ## Both directions -/

/-- A word that is read as an instruction is the word of that instruction. -/
theorem Instruction.word_of_ofWord? {w : UInt16} {i : Instruction} (h : ofWord? w = some i) :
    i.word = w := by
  have hw := Word.toNat_eq_nibbles w
  have hb := Word.toNat_lowByte w
  have ha := Word.val_lowAddress w
  have hlt := w.toNat_lt
  apply UInt16.toNat_inj.1
  rw [Instr.toNat_word]
  unfold ofWord? at h
  simp only at h
  generalize Word.nibble w 0 = n at *
  generalize Word.nibble w 1 = y at *
  generalize Word.nibble w 2 = x at *
  generalize Word.nibble w 3 = g at *
  generalize Word.lowByte w = b at *
  generalize Word.lowAddress w = a at *
  split at h <;> rename_i hg
  case h_1 =>
    split at h
    · cases h
      simp only [Instr.code]
      omega
    · split at h
      · cases h
        simp only [Instr.code]
        omega
      · cases h
  case h_9 =>
    obtain ⟨c, hc, rfl⟩ := Option.map_eq_some_iff.1 h
    obtain rfl := Calculation.ofCode?_eq_some_iff.1 hc
    simp only [Instr.code, groupCode]; omega
  case h_15 =>
    rw [Instruction.code_of_ofKeyByte? h, groupCode]
    omega
  case h_16 =>
    rw [Instruction.code_of_ofRegisterByte? h, groupCode]
    omega
  case h_17 => cases h
  all_goals
    first
    | cases h; simp only [Instr.code, groupCode]; omega
    | split at h
      · cases h
        simp only [Instr.code, groupCode]
        omega
      · cases h

theorem Instruction.ofWord?_word_of_keyByte {i : Instruction} {x : Fin 16} {b : UInt8}
    (h : i.code = groupCode 0xe x b.toNat) : ofWord? i.word = ofKeyByte? x b := by
  have hw : i.word.toNat = groupCode (0xe : Fin 16) x b.toNat := i.toNat_word.trans h
  obtain ⟨hg, hx, hb⟩ := Word.toNat_eq_byte_iff.1 hw
  simp only [ofWord?, hg, hx, hb]
  rfl

theorem Instruction.ofWord?_word_of_registerByte {i : Instruction} {x : Fin 16} {b : UInt8}
    (h : i.code = groupCode 0xf x b.toNat) : ofWord? i.word = ofRegisterByte? x b := by
  have hw : i.word.toNat = groupCode (0xf : Fin 16) x b.toNat := i.toNat_word.trans h
  obtain ⟨hg, hx, hb⟩ := Word.toNat_eq_byte_iff.1 hw
  simp only [ofWord?, hg, hx, hb]
  rfl

/-- An instruction is read back from its word. -/
theorem Instruction.ofWord?_word (i : Instruction) : ofWord? i.word = some i := by
  have address {g : Fin 16} {a : Fin 4096} (h : i.code = 4096 * g + a) :=
    Word.toNat_eq_address_iff.1 (i.toNat_word.trans h)
  have byte {g x : Fin 16} {b : UInt8} (h : i.code = groupCode g x b.toNat) :=
    Word.toNat_eq_byte_iff.1 (i.toNat_word.trans h)
  have pair {g x y n : Fin 16} (h : i.code = groupCode g x (16 * y + n)) :=
    Word.toNat_eq_digits_iff.1 (i.toNat_word.trans h)
  cases i with
  | skip expected test =>
    cases test with
    | byte x b =>
      cases expected
      · obtain ⟨hg, hx, hb⟩ := byte (g := 4) rfl
        simp only [ofWord?, hg, hx, hb]
        rfl
      · obtain ⟨hg, hx, hb⟩ := byte (g := 3) rfl
        simp only [ofWord?, hg, hx, hb]
        rfl
    | register x y =>
      cases expected
      · obtain ⟨hg, hx, hy, hn⟩ := pair (g := 9) (n := 0) rfl
        simp only [ofWord?, hg, hx, hy, hn]
        rfl
      · obtain ⟨hg, hx, hy, hn⟩ := pair (g := 5) (n := 0) rfl
        simp only [ofWord?, hg, hx, hy, hn]
        rfl
    | key x =>
      cases expected
      · exact ofWord?_word_of_keyByte (x := x) (b := 0xa1) rfl
      · exact ofWord?_word_of_keyByte (x := x) (b := 0x9e) rfl
  | clear | ret => rfl
  | jump a =>
    obtain ⟨hg, ha⟩ := address (g := 1) rfl
    simp only [ofWord?, hg, ha]
    rfl
  | call a =>
    obtain ⟨hg, ha⟩ := address (g := 2) rfl
    simp only [ofWord?, hg, ha]
    rfl
  | setIndex a =>
    obtain ⟨hg, ha⟩ := address (g := 0xa) rfl
    simp only [ofWord?, hg, ha]
    rfl
  | jumpOffset a =>
    obtain ⟨hg, ha⟩ := address (g := 0xb) rfl
    simp only [ofWord?, hg, ha]
    rfl
  | setByte x b =>
    obtain ⟨hg, hx, hb⟩ := byte (g := 6) rfl
    simp only [ofWord?, hg, hx, hb]
    rfl
  | addByte x b =>
    obtain ⟨hg, hx, hb⟩ := byte (g := 7) rfl
    simp only [ofWord?, hg, hx, hb]
    rfl
  | random x b =>
    obtain ⟨hg, hx, hb⟩ := byte (g := 0xc) rfl
    simp only [ofWord?, hg, hx, hb]
    rfl
  | calculate c x y =>
    obtain ⟨hg, hx, hy, hn⟩ := pair (g := 8) rfl
    have hc : Calculation.ofCode? c.code = some c := Calculation.ofCode?_eq_some_iff.2 rfl
    simp only [ofWord?, hg, hx, hy, hn, hc]
    rfl
  | draw x y n =>
    obtain ⟨hg, hx, hy, hn⟩ := pair (g := 0xd) rfl
    simp only [ofWord?, hg, hx, hy, hn]
    rfl
  | readDelay x => exact ofWord?_word_of_registerByte (x := x) (b := 0x07) rfl
  | awaitKey x => exact ofWord?_word_of_registerByte (x := x) (b := 0x0a) rfl
  | setDelay x => exact ofWord?_word_of_registerByte (x := x) (b := 0x15) rfl
  | setSound x => exact ofWord?_word_of_registerByte (x := x) (b := 0x18) rfl
  | addIndex x => exact ofWord?_word_of_registerByte (x := x) (b := 0x1e) rfl
  | glyph x => exact ofWord?_word_of_registerByte (x := x) (b := 0x29) rfl
  | decimal x => exact ofWord?_word_of_registerByte (x := x) (b := 0x33) rfl
  | store x => exact ofWord?_word_of_registerByte (x := x) (b := 0x55) rfl
  | load x => exact ofWord?_word_of_registerByte (x := x) (b := 0x65) rfl

/-- **Words and instructions correspond**: a word is read as `i` exactly if it is the word
of `i`. -/
theorem Instruction.ofWord?_eq_some_iff {w : UInt16} {i : Instruction} :
    ofWord? w = some i ↔ w = i.word :=
  ⟨fun h => (word_of_ofWord? h).symm, fun h => h ▸ ofWord?_word i⟩

end Chip8
