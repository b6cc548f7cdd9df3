import Chip8.Instruction.Inverse
import Chip8.Proofs.Disassembly
import Chip8.Proofs.Reading

/-!
# The assembler

A line of assembly can be read again. The mnemonic stands in the first seven characters, the
operands behind it, and the first character of an operand says what it is. Only a byte and the
height of a sprite look the same, so the assembler takes both for a byte; which one it is follows
from the number of operands.

* `Operand.ofText` reads an operand and `Instr.ofText?` a line.
* `Instr.ofText?_text` says that an instruction is read again from its line, so different
  instructions have different lines.
* `disassembly_lossless` says the same of words, in colours and without.
-/

namespace Chip8

open Text

/-! ## Operands -/

/-- The operand as it looks: the height of a sprite looks like a byte. -/
def Operand.look : Operand → Operand
  | height n => byte n
  | o => o

/-- The operand that a text stands for. -/
def Operand.ofText (text : String) : Operand :=
  match text.toList with
  | 'v' :: number => register (hexValue number)
  | '#' :: number => byte (hexValue number)
  | '$' :: number => address (hexValue number)
  | '[' :: _ => cellsAtIndex
  | ['D', 'T'] => delayTimer
  | ['S', 'T'] => soundTimer
  | ['K'] => key
  | ['F'] => glyph
  | ['B'] => digits
  | _ => index

/-- An operand is read again. -/
theorem Operand.ofText_text (o : Operand) : ofText o.text = o.look := by
  have hprefixed : ∀ (c : Char) (digits : String),
      (String.ofList [c] ++ digits).toList = c :: digits.toList := by
    simp
  cases o with
  | register n =>
    have htext : (text (register n)).toList = 'v' :: (upperHex n).toList := hprefixed _ _
    rw [ofText, htext]
    exact congrArg register (hexValue_upperHex n)
  | byte n =>
    have htext : (text (byte n)).toList = '#' :: hexDigits 2 n := by
      rw [← toList_hex]
      exact hprefixed _ _
    rw [ofText, htext]
    exact congrArg byte (hexValue_hexDigits 2 n)
  | height n =>
    have htext : (text (height n)).toList = '#' :: hexDigits 1 n := by
      rw [← toList_hex]
      exact hprefixed _ _
    rw [ofText, htext]
    exact congrArg byte (hexValue_hexDigits 1 n)
  | address n =>
    have htext : (text (address n)).toList = '$' :: hexDigits 3 n := by
      rw [← toList_hex]
      exact hprefixed _ _
    rw [ofText, htext]
    exact congrArg address (hexValue_hexDigits 3 n)
  | _ => rfl

/-! ## Lines -/

/-- The calculation with a mnemonic. -/
def Calculation.ofMnemonic? : String → Option Calculation
  | "ld" => some copy
  | "or" => some bitOr
  | "and" => some bitAnd
  | "xor" => some bitXor
  | "add" => some add
  | "sub" => some subtract
  | "shr" => some shiftRight
  | "subn" => some subtractFrom
  | "shl" => some shiftLeft
  | _ => none

/-- The instruction with a mnemonic and operands, if there is one. -/
def Instr.ofParts? (mnemonic : String) (operands : List Operand) : Option Written :=
  match mnemonic, operands with
  | "cls", [] => some clear
  | "ret", [] => some ret
  | "jp", [.address a] => some (jump a)
  | "call", [.address a] => some (call a)
  | "jp", [.register 0, .address a] => some (jumpOffset a)
  | "ld", [.index, .address a] => some (setIndex a)
  | "se", [.register x, .byte b] => some (skip true (.byte x (UInt8.ofNat b)))
  | "sne", [.register x, .byte b] => some (skip false (.byte x (UInt8.ofNat b)))
  | "ld", [.register x, .byte b] => some (setByte x (UInt8.ofNat b))
  | "add", [.register x, .byte b] => some (addByte x (UInt8.ofNat b))
  | "rnd", [.register x, .byte b] => some (random x (UInt8.ofNat b))
  | "se", [.register x, .register y] => some (skip true (.register x y))
  | "sne", [.register x, .register y] => some (skip false (.register x y))
  | _, [.register x, .register y] =>
    (Calculation.ofMnemonic? mnemonic).map fun c => calculate c x y
  | "drw", [.register x, .register y, .byte n] => some (draw x y n)
  | "skp", [.register x] => some (skip true (.key x))
  | "sknp", [.register x] => some (skip false (.key x))
  | "ld", [.register x, .delayTimer] => some (readDelay x)
  | "ld", [.register x, .key] => some (awaitKey x)
  | "ld", [.delayTimer, .register x] => some (setDelay x)
  | "ld", [.soundTimer, .register x] => some (setSound x)
  | "add", [.index, .register x] => some (addIndex x)
  | "ld", [.glyph, .register x] => some (glyph x)
  | "ld", [.digits, .register x] => some (decimal x)
  | "ld", [.cellsAtIndex, .register x] => some (store x)
  | "ld", [.register x, .cellsAtIndex] => some (load x)
  | _, _ => none

/-- The parts of a line make the instruction again. -/
theorem Instr.ofParts?_mnemonic_operands (i : Written) :
    ofParts? i.mnemonic (i.operands.map Operand.look) = some i := by
  have hbyte : ∀ (f : UInt8 → Written) (b : UInt8), some (f (UInt8.ofNat b.toNat)) = some (f b) :=
    fun f b => by rw [UInt8.ofNat_toNat]
  cases i with
  | skip expected test =>
    cases test with
    | byte x b => cases expected <;> exact hbyte (fun b => skip _ (.byte x b)) b
    | register x y | key x => cases expected <;> rfl
  | setByte x b => exact hbyte (setByte x) b
  | addByte x b => exact hbyte (addByte x) b
  | random x b => exact hbyte (random x) b
  | calculate c x y => cases c <;> rfl
  | _ => rfl

/-- The operands that stand in a line, with commas and blanks between them. -/
def splitOperands (text : String) : List Operand :=
  let characters := text.toList.filter (· ≠ ' ')
  (if characters = [] then [] else characters.splitOn ',').map fun o =>
    Operand.ofText (String.ofList o)

/-- The instruction that a line of assembly stands for, if it stands for one. -/
def Instr.ofText? (text : String) : Option Written :=
  let mnemonic := (text.toList.take 7).takeWhile (· ≠ ' ')
  ofParts? (String.ofList mnemonic) (splitOperands (String.ofList (text.toList.drop 7)))

/-- There is no blank in an operand, and no comma. -/
theorem Operand.mem_text {o : Operand} {c : Char} (h : c ∈ o.text.toList) :
    ' ' < c ∧ c ≠ ',' := by
  have hdigit : ∀ d < 16, ' ' < Nat.digitChar d ∧ Nat.digitChar d ≠ ',' := by decide
  have hcapital : ∀ d < 16, ' ' < (Nat.digitChar d).toUpper ∧ (Nat.digitChar d).toUpper ≠ ',' := by
    decide
  have hfixed : ∀ {fixed : String},
      fixed.toList.all (fun c => ' ' < c ∧ c ≠ ',') = true → c ∈ fixed.toList →
        ' ' < c ∧ c ≠ ',' :=
    fun hall hc => of_decide_eq_true (List.all_eq_true.1 hall c hc)
  cases o with
  | register n =>
    rw [text, String.toList_append, List.mem_append] at h
    rcases h with h | h
    · exact hfixed (by decide) h
    · obtain ⟨d, hd, rfl⟩ := exists_digitChar_of_mem_upperHex h
      exact hcapital d hd
  | byte n | height n | address n =>
    rw [text, String.toList_append, List.mem_append] at h
    rcases h with h | h
    · exact hfixed (by decide) h
    · obtain ⟨d, hd, rfl⟩ := exists_digitChar_of_mem_hex h
      exact hdigit d hd
  | _ => exact hfixed (by decide) h

theorem Operand.text_ne_empty (o : Operand) : o.text.toList ≠ [] := by
  cases o <;> simp [text]

/-- Without the blanks behind them, only the commas are left between operands. -/
theorem filter_intercalate_text (operands : List Operand) :
    (", ".intercalate (operands.map Operand.text)).toList.filter (· ≠ ' ') =
      [','].intercalate (operands.map fun o => o.text.toList) := by
  have htext : ∀ o : Operand, o.text.toList.filter (· ≠ ' ') = o.text.toList := by
    intro o
    refine List.filter_eq_self.2 fun c hc => decide_eq_true ?_
    rintro rfl
    exact absurd (Operand.mem_text hc).1 (by decide)
  have hseparator : (", ".toList).filter (· ≠ ' ') = [','] := by decide
  rw [String.toList_intercalate, List.map_map]
  induction operands with
  | nil => rfl
  | cons o rest ih =>
    cases rest with
    | nil => simpa using htext o
    | cons next rest =>
      rw [List.map_cons, List.map_cons] at ih ⊢
      rw [List.map_cons, List.map_cons, List.intercalate_cons_cons, List.intercalate_cons_cons,
        List.filter_append, List.filter_append, ih, hseparator]
      exact congrArg (· ++ [','] ++ _) (htext o)

/-- **The operands of a line are read again.** -/
theorem splitOperands_intercalate (operands : List Operand) :
    splitOperands (", ".intercalate (operands.map Operand.text)) = operands.map Operand.look := by
  rw [splitOperands, filter_intercalate_text]
  cases operands with
  | nil => rfl
  | cons o rest =>
    have hne : [','].intercalate ((o :: rest).map fun o => o.text.toList) ≠ [] := by
      cases rest <;> simp [o.text_ne_empty]
    have hcomma : ∀ part ∈ (o :: rest).map fun o => o.text.toList, ',' ∉ part := by
      intro part hpart hc
      obtain ⟨o, -, rfl⟩ := List.mem_map.1 hpart
      exact (Operand.mem_text hc).2 rfl
    simp only [if_neg hne]
    rw [List.splitOn_intercalate _ hcomma (by simp), List.map_map]
    refine List.map_congr_left fun o _ => ?_
    rw [Function.comp_apply, String.ofList_toList, Operand.ofText_text]

/-- **An instruction is read again from its line.** -/
theorem Instr.ofText?_text (i : Written) : ofText? i.text = some i := by
  have hmnemonics : ∀ mnemonic ∈ mnemonics, (padded 7 mnemonic).toList.length = 7 ∧
      (padded 7 mnemonic).toList.takeWhile (· ≠ ' ') = mnemonic.toList := by
    decide
  obtain ⟨hlength, hmnemonic⟩ := hmnemonics _ i.mnemonic_mem
  rw [ofText?, text, String.toList_append, List.take_left' hlength, List.drop_left' hlength,
    hmnemonic, String.ofList_toList, String.ofList_toList, splitOperands_intercalate]
  exact i.ofParts?_mnemonic_operands

/-- The assembler takes operands that are too large for a word. -/
example : Instr.ofText? "ld     v1F, [I]" = some (.load 31) := rfl

theorem Instr.text_injective : Function.Injective Instr.text := by
  intro i j h
  have hread := congrArg ofText? h
  rw [ofText?_text, ofText?_text] at hread
  exact Option.some.inj hread

/-! ## Words -/

theorem Instr.written_injective : Function.Injective Instr.written := by
  intro i j h
  rw [← fit_written i, h, fit_written]

theorem disassembleBare_of_some {w : UInt16} {i : Instruction}
    (h : Instruction.ofWord? w = some i) : disassembleBare w = i.written.text := by
  rw [disassembleBare, h]

theorem disassembleBare_of_none {w : UInt16} (h : Instruction.ofWord? w = none) :
    disassembleBare w = "inval" ++ ("  " ++ hex 4 w.toNat) := by
  rw [disassembleBare, h, ← String.append_assoc]
  rfl

/-- Different words have different lines: a line shows the instruction of its word or, if the word
has none, the word itself. -/
theorem disassembleBare_injective : Function.Injective disassembleBare := by
  intro w w' h
  cases hw : Instruction.ofWord? w with
  | none =>
    rw [disassembleBare_of_none hw] at h
    cases hw' : Instruction.ofWord? w' with
    | none =>
      rw [disassembleBare_of_none hw'] at h
      have hdigits : hex 4 w.toNat = hex 4 w'.toNat := by simpa using h
      exact UInt16.toNat_inj.1 (hex_injective 4 hdigits)
    | some i' =>
      rw [disassembleBare_of_some hw'] at h
      exact absurd h.symm (i'.written.text_ne_inval _)
  | some i =>
    rw [disassembleBare_of_some hw] at h
    cases hw' : Instruction.ofWord? w' with
    | none =>
      rw [disassembleBare_of_none hw'] at h
      exact absurd h (i.written.text_ne_inval _)
    | some i' =>
      rw [disassembleBare_of_some hw'] at h
      obtain rfl := Instr.written_injective (Instr.text_injective h)
      exact (Instruction.ofWord?_eq_some_iff.1 hw).trans
        (Instruction.ofWord?_eq_some_iff.1 hw').symm

theorem inval_prefix_disassembleBare_iff (w : UInt16) :
    "inval".toList <+: (disassembleBare w).toList ↔ Instruction.ofWord? w = none := by
  cases hw : Instruction.ofWord? w with
  | none =>
    rw [disassembleBare_of_none hw, String.toList_append]
    exact iff_of_true (List.prefix_append _ _) rfl
  | some i =>
    rw [disassembleBare_of_some hw]
    refine iff_of_false ?_ nofun
    rintro ⟨rest, hrest⟩
    exact i.written.text_ne_inval (String.ofList rest)
      (String.toList_inj.1 (by simpa using hrest.symm))

theorem Instr.escape_not_mem_text (i : Written) : '\x1b' ∉ i.text.toList := by
  have hmnemonics : ∀ mnemonic ∈ mnemonics, '\x1b' ∉ (padded 7 mnemonic).toList := by decide
  intro h
  rw [text, String.toList_append, List.mem_append] at h
  rcases h with h | h
  · exact hmnemonics _ i.mnemonic_mem h
  · rcases mem_intercalate h with h | ⟨part, hpart, h⟩
    · exact absurd h (by decide)
    · obtain ⟨o, -, rfl⟩ := List.mem_map.1 hpart
      exact absurd (Operand.mem_text h).1 (by decide)

theorem escape_not_mem_disassembleBare (w : UInt16) : '\x1b' ∉ (disassembleBare w).toList := by
  cases hw : Instruction.ofWord? w with
  | none =>
    rw [disassembleBare_of_none hw, ← String.append_assoc, String.toList_append, List.mem_append]
    rintro (h | h)
    · exact absurd h (by decide)
    · exact not_mem_hex (fun _ => Nat.digitChar_ne '\x1b' rfl) 4 _ h
  | some i =>
    rw [disassembleBare_of_some hw]
    exact i.written.escape_not_mem_text

/-- **Colours are all that a palette adds to a line.** -/
theorem shows_disassemble (p : Palette) (w : UInt16) :
    Shows (disassemble p w) (disassembleBare w) :=
  (Shows.refl (escape_not_mem_disassembleBare w)).paint _

/-- **Disassembly loses nothing.** Written instructions with the same line are the same, however
large their operands are. Words with the same line are the same, in any colours and without. The
colours do not show in what a terminal shows of a line, and that begins with `inval` exactly if the
word is no instruction. -/
theorem disassembly_lossless :
    (∀ i j : Written, i.text = j.text → i = j) ∧
    ∀ p : Palette,
      (∀ w w', disassemble p w = disassemble p w' → w = w') ∧
      ∀ w, visible (disassemble p w) = disassemble .plain w ∧
        ("inval".toList <+: (visible (disassemble p w)).toList ↔ Instruction.ofWord? w = none) := by
  refine ⟨fun i j h => Instr.text_injective h, fun p => ⟨fun w w' h => ?_, fun w => ?_⟩⟩
  · have hvisible := congrArg visible h
    rw [(shows_disassemble p w).visible_eq, (shows_disassemble p w').visible_eq] at hvisible
    exact disassembleBare_injective hvisible
  · have hplain : disassemble .plain w = disassembleBare w := by
      unfold disassemble
      split <;> exact Style.paint_plain _
    rw [(shows_disassemble p w).visible_eq, hplain]
    exact ⟨rfl, inval_prefix_disassembleBare_iff w⟩

end Chip8
