import Chip8.Instruction.Disassembly
import Chip8.Fault
import Chip8.Proofs.Reading

/-!
# Texts on one line

The disassembly of a word and the message of a fault stand on one line: no part of them breaks the
line, whatever the numbers in them are. And the disassembly tells an instruction from any other
word: no mnemonic looks like `inval`, in any style.

* `Text.OneLine` says that a text does not break its line.
* `oneLine_disassemble` and `Fault.oneLine_message` say so of disassembly and messages.
* `disassemblesInvalid_iff` says which words are shown as no instruction.
-/

namespace Chip8

namespace Text

/-- The text does not break its line. -/
def OneLine (text : String) : Prop :=
  '\n' ∉ text.toList

instance (text : String) : Decidable (OneLine text) :=
  inferInstanceAs (Decidable ('\n' ∉ text.toList))

/-! ## Parts of a text -/

@[simp]
theorem oneLine_append {text text' : String} :
    OneLine (text ++ text') ↔ OneLine text ∧ OneLine text' := by
  simp [OneLine]

/-- Parts on one line, joined by a separator that does not break it. -/
theorem oneLine_intercalate {separator : String} {parts : List String} (hs : OneLine separator)
    (hp : ∀ part ∈ parts, OneLine part) : OneLine (separator.intercalate parts) := by
  intro h
  rcases mem_intercalate h with h | ⟨part, hpart, h⟩
  · exact hs h
  · exact hp part hpart h

theorem newline_not_mem_toDigits {base : Nat} (hb : 1 < base) (n : Nat) :
    '\n' ∉ Nat.toDigits base n :=
  not_mem_toDigits hb (fun _ => Nat.digitChar_ne '\n' rfl) n

@[simp]
theorem oneLine_hex (width n : Nat) : OneLine (hex width n) := by
  simp [OneLine, toList_hex, hexDigits, List.leftpad, newline_not_mem_toDigits]

@[simp]
theorem oneLine_repr (n : Nat) : OneLine n.repr := by
  simp [OneLine, newline_not_mem_toDigits]

@[simp]
theorem oneLine_upperHex (n : Nat) : OneLine (upperHex n) := by
  have hdigit : ∀ d < 16, '\n' ≠ (Nat.digitChar d).toUpper := by decide
  intro h
  obtain ⟨d, hd, heq⟩ := exists_digitChar_of_mem_upperHex h
  exact hdigit d hd heq

@[simp]
theorem oneLine_padded {width : Nat} {text : String} :
    OneLine (padded width text) ↔ OneLine text := by
  simp [OneLine, toList_padded, List.rightpad]

@[simp]
theorem oneLine_attributes (codes : List Nat) : OneLine (attributes codes) := by
  have hcodes : OneLine (";".intercalate (codes.map Nat.repr)) := by
    refine oneLine_intercalate (by decide) fun part hpart => ?_
    obtain ⟨n, -, rfl⟩ := List.mem_map.1 hpart
    exact oneLine_repr n
  rw [attributes, oneLine_append, oneLine_append]
  exact ⟨⟨by decide, hcodes⟩, by decide⟩

@[simp]
theorem oneLine_tint {c : Colour} {text : String} : OneLine (c.tint text) ↔ OneLine text := by
  simp [Colour.tint]

@[simp]
theorem oneLine_embolden {text : String} : OneLine (embolden text) ↔ OneLine text := by
  simp [embolden]

@[simp]
theorem oneLine_paint {s : Style} {text : String} : OneLine (s.paint text) ↔ OneLine text := by
  unfold Style.paint
  split <;> simp

end Text

open Text

/-! ## Lines of assembly -/

theorem Operand.oneLine_text (o : Operand) : OneLine o.text := by
  cases o with
  | register n | byte n | height n | address n =>
    rw [text, oneLine_append]
    exact ⟨by decide, by simp⟩
  | _ => decide

/-- The mnemonics that there are. -/
def mnemonics : List String :=
  ["cls", "ret", "jp", "call", "se", "sne", "skp", "sknp", "ld", "or", "and", "xor", "add", "sub",
    "shr", "subn", "shl", "rnd", "drw"]

theorem Instr.mnemonic_mem (i : Written) : i.mnemonic ∈ mnemonics := by
  cases i with
  | skip expected test => cases expected <;> cases test <;> simp [mnemonic, mnemonics]
  | calculate c x y => cases c <;> simp [mnemonic, Calculation.mnemonic, mnemonics]
  | _ => simp [mnemonic, mnemonics]

theorem Instr.oneLine_text (i : Written) : OneLine i.text := by
  have hmnemonic : ∀ mnemonic ∈ mnemonics, OneLine mnemonic := by decide
  rw [text, oneLine_append, oneLine_padded]
  refine ⟨hmnemonic _ i.mnemonic_mem, oneLine_intercalate (by decide) fun part hpart => ?_⟩
  obtain ⟨o, -, rfl⟩ := List.mem_map.1 hpart
  exact o.oneLine_text

theorem oneLine_disassembleBare (w : UInt16) : OneLine (disassembleBare w) := by
  unfold disassembleBare
  split
  · exact Instr.oneLine_text _
  · rw [oneLine_append]
    exact ⟨by decide, by simp⟩

/-- **The disassembly of a word stands on one line.** -/
@[simp]
theorem oneLine_disassemble (p : Palette) (w : UInt16) : OneLine (disassemble p w) :=
  oneLine_paint.2 (oneLine_disassembleBare w)

/-- So do the messages of faults that have nothing to do with files. -/
theorem Fault.oneLine_message {f : Fault} (h : ∀ fault, f ≠ .file fault) : OneLine f.message := by
  unfold message
  cases f with
  | file fault => exact absurd rfl (h fault)
  | unknownInstruction | stackOverflow | stackUnderflow | romTooLarge | invalidKey
  | invalidRegister =>
    simp only [oneLine_append, oneLine_hex, oneLine_upperHex, oneLine_repr, and_true]
    simp [OneLine]

/-! ## Words that are no instruction -/

/-- The disassembly shows a word as no instruction: it begins with `inval`, in the style for such
words. -/
def DisassemblesInvalid (p : Palette) (w : UInt16) : Prop :=
  ∃ rest, disassemble p w = p.invalid.paint ("inval" ++ rest)

/-- The line of an instruction begins with a mnemonic, and no mnemonic looks like `inval`. -/
theorem Instr.text_ne_inval (i : Written) (rest : String) : i.text ≠ "inval" ++ rest := by
  have hhead : ∀ mnemonic ∈ mnemonics,
      mnemonic.toList.head?.isSome ∧ mnemonic.toList.head? ≠ some 'i' := by
    decide
  obtain ⟨hsome, hne⟩ := hhead _ i.mnemonic_mem
  intro heq
  have hfirst := congrArg (fun text => text.toList.head?) heq
  obtain ⟨c, hc⟩ := Option.isSome_iff_exists.1 hsome
  simp [text, toList_padded, List.rightpad, hc] at hfirst
  exact hne (hfirst ▸ hc)

/-- **A word is shown as no instruction exactly if it is none**, in colours and without. -/
theorem disassemblesInvalid_iff {p : Palette} (hp : p = .plain ∨ p = .standard) (w : UInt16) :
    DisassemblesInvalid p w ↔ Instruction.ofWord? w = none := by
  unfold DisassemblesInvalid disassemble disassembleBare
  cases hw : Instruction.ofWord? w with
  | none =>
    refine iff_of_true ⟨"  " ++ hex 4 w.toNat, ?_⟩ rfl
    simp [← String.append_assoc]
  | some i =>
    refine iff_of_false ?_ nofun
    rintro ⟨rest, heq⟩
    rcases hp with rfl | rfl
    · exact i.written.text_ne_inval rest heq
    · have hvalid : Palette.standard.valid.paint i.written.text =
          "\x1b[32m" ++ i.written.text ++ "\x1b[0m" := rfl
      have hinvalid : Palette.standard.invalid.paint ("inval" ++ rest) =
          "\x1b[31;1m" ++ ("inval" ++ rest) ++ "\x1b[0m" := rfl
      have hdigit := congrArg (fun text => text.toList[3]?) (hvalid.symm.trans (heq.trans hinvalid))
      simp at hdigit

end Chip8
