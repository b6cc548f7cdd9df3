import Chip8.Instruction.Assembly
import Chip8.Proofs.OpcodeMap

/-!
# Opcode patterns

An opcode is written as a pattern of four nibbles, such as `8xy4`: digits that stand for themselves
and letters that stand for operands. The letters `x`, `y` and `n` are nibbles, `B` is a byte and `A`
an address, and each has its place in the word (`Word.fields`).

* `Instruction.ofWord?_eq_some_iff_fits`: a word is read as the instruction whose digits it has and
  whose operands are the parts of the word under their letters.
* `Written.fields_fit`: an operand that is too large for its place keeps its low bits.
* `Instruction.ofBytes?_eq_ok_iff`, `Written.encode_of_ofBytes?` and `Written.ofBytes?_encode` take
  this to buffers.
* `Instruction.read_write_inverse`: reading and writing are inverse.
-/

namespace Chip8

/-- An opcode by its nibbles, the highest first: its digits, and nothing where an operand stands. -/
abbrev Pattern := List (Option (Fin 16))

namespace Pattern

/-- The pattern of one digit, the group. -/
def ofGroup (group : Fin 16) : Pattern :=
  [some group, none, none, none]

/-- The pattern of the group and the last digit. -/
def ofLast (group last : Fin 16) : Pattern :=
  [some group, none, none, some last]

/-- The pattern of the group and the two digits of the low byte. -/
def ofLow (group high low : Fin 16) : Pattern :=
  [some group, none, some high, some low]

end Pattern

open Pattern in
/-- The pattern of an instruction. -/
def Instr.pattern {ν α : Type} : Instr ν α → Pattern
  | clear => [some 0x0, some 0x0, some 0xe, some 0x0]
  | ret => [some 0x0, some 0x0, some 0xe, some 0xe]
  | jump _ => ofGroup 0x1
  | call _ => ofGroup 0x2
  | skip true (.byte _ _) => ofGroup 0x3
  | skip false (.byte _ _) => ofGroup 0x4
  | skip true (.register _ _) => ofLast 0x5 0x0
  | setByte _ _ => ofGroup 0x6
  | addByte _ _ => ofGroup 0x7
  | calculate c _ _ => ofLast 0x8 c.code
  | skip false (.register _ _) => ofLast 0x9 0x0
  | setIndex _ => ofGroup 0xa
  | jumpOffset _ => ofGroup 0xb
  | random _ _ => ofGroup 0xc
  | draw _ _ _ => ofGroup 0xd
  | skip true (.key _) => ofLow 0xe 0x9 0xe
  | skip false (.key _) => ofLow 0xe 0xa 0x1
  | readDelay _ => ofLow 0xf 0x0 0x7
  | awaitKey _ => ofLow 0xf 0x0 0xa
  | setDelay _ => ofLow 0xf 0x1 0x5
  | setSound _ => ofLow 0xf 0x1 0x8
  | addIndex _ => ofLow 0xf 0x1 0xe
  | glyph _ => ofLow 0xf 0x2 0x9
  | decimal _ => ofLow 0xf 0x3 0x3
  | store _ => ofLow 0xf 0x5 0x5
  | load _ => ofLow 0xf 0x6 0x5

namespace Word

/-- The nibbles of a word, the highest first. -/
def nibbles (w : UInt16) : List (Fin 16) :=
  [nibble w 3, nibble w 2, nibble w 1, nibble w 0]

/-- The word has the digits of a pattern. -/
def Fits (w : UInt16) (p : Pattern) : Prop :=
  ∀ place ∈ p.zip (nibbles w), ∀ digit ∈ place.1, place.2 = digit

/-- The parts of a word under the letters of the operands that they hold. -/
def fields (w : UInt16) : List (String × Nat) :=
  [("x", nibble w 2), ("y", nibble w 1), ("n", nibble w 0), ("B", (lowByte w).toNat),
    ("A", lowAddress w)]

variable {w : UInt16} {group x y : Fin 16}

theorem mem_fields_x : ("x", x.val) ∈ fields w ↔ nibble w 2 = x := by
  simp [fields, Fin.ext_iff, eq_comm]

theorem mem_fields_y : ("y", y.val) ∈ fields w ↔ nibble w 1 = y := by
  simp [fields, Fin.ext_iff, eq_comm]

theorem mem_fields_n {n : Fin 16} : ("n", n.val) ∈ fields w ↔ nibble w 0 = n := by
  simp [fields, Fin.ext_iff, eq_comm]

theorem mem_fields_byte {b : UInt8} : ("B", b.toNat) ∈ fields w ↔ lowByte w = b := by
  simp [fields, ← UInt8.toNat_inj, eq_comm]

theorem mem_fields_address {a : Fin 4096} : ("A", a.val) ∈ fields w ↔ lowAddress w = a := by
  simp [fields, Fin.ext_iff, eq_comm]

/-! ## Layouts

The instructions share six layouts of digits and operands. In each of them the digits and the
operands determine the word. -/

theorem fits_ofGroup : Fits w (.ofGroup group) ↔ nibble w 3 = group := by
  simp [Fits, nibbles, Pattern.ofGroup]

theorem fits_ofLast {last : Fin 16} :
    Fits w (.ofLast group last) ↔ nibble w 3 = group ∧ nibble w 0 = last := by
  simp [Fits, nibbles, Pattern.ofLast]

theorem fits_ofLow {high low : Fin 16} :
    Fits w (.ofLow group high low) ↔
      nibble w 3 = group ∧ nibble w 1 = high ∧ nibble w 0 = low := by
  simp [Fits, nibbles, Pattern.ofLow]

theorem fits_digits {a b c d : Fin 16} :
    Fits w [some a, some b, some c, some d] ↔
      nibble w 3 = a ∧ nibble w 2 = b ∧ nibble w 1 = c ∧ nibble w 0 = d := by
  simp [Fits, nibbles]

theorem fits_fixed_iff {a b c d : Fin 16} :
    Fits w [some a, some b, some c, some d] ∧ [] ⊆ fields w ↔
      w.toNat = groupCode a b (16 * c + d) := by
  simp [fits_digits, toNat_eq_digits_iff]

theorem fits_address_iff {a : Fin 4096} :
    Fits w (.ofGroup group) ∧ [("A", a.val)] ⊆ fields w ↔ w.toNat = 4096 * group + a := by
  simp [fits_ofGroup, mem_fields_address, toNat_eq_address_iff]

theorem fits_byte_iff {b : UInt8} :
    Fits w (.ofGroup group) ∧ [("B", b.toNat), ("x", x.val)] ⊆ fields w ↔
      w.toNat = groupCode group x b.toNat := by
  simp [fits_ofGroup, mem_fields_byte, mem_fields_x, toNat_eq_byte_iff, and_comm]

theorem fits_pair_iff {last : Fin 16} :
    Fits w (.ofLast group last) ∧ [("y", y.val), ("x", x.val)] ⊆ fields w ↔
      w.toNat = groupCode group x (16 * y + last) := by
  simp [fits_ofLast, mem_fields_y, mem_fields_x, toNat_eq_digits_iff, and_assoc, and_comm,
    and_left_comm]

theorem fits_sprite_iff {n : Fin 16} :
    Fits w (.ofGroup group) ∧ [("y", y.val), ("x", x.val), ("n", n.val)] ⊆ fields w ↔
      w.toNat = groupCode group x (16 * y + n) := by
  simp [fits_ofGroup, mem_fields_y, mem_fields_x, mem_fields_n, toNat_eq_digits_iff,
    and_left_comm]

theorem fits_register_iff {high low : Fin 16} :
    Fits w (.ofLow group high low) ∧ [("x", x.val)] ⊆ fields w ↔
      w.toNat = groupCode group x (16 * high + low) := by
  simp [fits_ofLow, mem_fields_x, toNat_eq_digits_iff, and_assoc, and_comm,
    and_left_comm]

/-- The digits of an instruction and its operands determine its word. -/
theorem fits_pattern_iff (w : UInt16) (i : Instruction) :
    Fits w i.pattern ∧ i.written.fields ⊆ fields w ↔ w.toNat = i.code := by
  cases i with
  | clear | ret => exact fits_fixed_iff
  | jump | call | setIndex | jumpOffset => exact fits_address_iff
  | setByte | addByte | random => exact fits_byte_iff
  | calculate => exact fits_pair_iff
  | draw => exact fits_sprite_iff
  | skip expected test =>
    cases test with
    | byte => cases expected <;> exact fits_byte_iff
    | register => cases expected <;> exact fits_pair_iff
    | key => cases expected <;> exact fits_register_iff
  | _ => exact fits_register_iff

end Word

/-- **A word is read as the instruction whose digits it has**, the operands being the parts of the
word under their letters. -/
theorem Instruction.ofWord?_eq_some_iff_fits {w : UInt16} {i : Instruction} :
    ofWord? w = some i ↔ Word.Fits w i.pattern ∧ i.written.fields ⊆ Word.fields w := by
  rw [Word.fits_pattern_iff, ← Instr.toNat_word, UInt16.toNat_inj, ofWord?_eq_some_iff]

/-! ## Operands that are too large -/

/-- How many values there are for the operand under a letter. -/
def fieldSize : String → Nat
  | "A" => 4096
  | "B" => 256
  | _ => 16

namespace Written

theorem name_fit (i : Written) : i.fit.written.name = i.name := by
  cases i with
  | skip expected test => cases test <;> cases expected <;> rfl
  | _ => rfl

/-- **An operand that is too large for its place keeps its low bits.** -/
theorem fields_fit (i : Written) :
    i.fit.written.fields = i.fields.map fun (letter, v) => (letter, v % fieldSize letter) := by
  have hbyte (b : UInt8) : b.toNat % 256 = b.toNat := Nat.mod_eq_of_lt b.toNat_lt
  cases i with
  | skip expected test =>
    cases test <;>
      simp [fit, Instr.written, Instr.map, Test.map, Instr.fields, fieldSize, hbyte]
  | _ => simp [fit, Instr.written, Instr.map, Instr.fields, fieldSize, hbyte]

end Written

/-! ## Buffers -/

namespace Instruction

variable {high low : UInt8} {rest : List UInt8} {i : Instruction}

theorem ofBytes?_eq_ok_iff_ofWord? :
    ofBytes? (high :: low :: rest) = .ok i ↔ ofWord? (Word.ofBytes high low) = some i := by
  rw [ofBytes?]
  cases ofWord? (Word.ofBytes high low) <;> simp

/-- The beginning of a buffer is read as the instruction whose digits it has, the operands being the
parts of its word under their letters. -/
theorem ofBytes?_eq_ok_iff :
    ofBytes? (high :: low :: rest) = .ok i ↔
      Word.Fits (Word.ofBytes high low) i.pattern ∧
        i.written.fields ⊆ Word.fields (Word.ofBytes high low) := by
  rw [ofBytes?_eq_ok_iff_ofWord?, ofWord?_eq_some_iff_fits]

theorem exists_ofBytes?_eq_ok_iff :
    (∃ i, ofBytes? (high :: low :: rest) = .ok i) ↔ Word.IsOpcode (Word.ofBytes high low) := by
  rw [← ofWord?_isSome_iff, Option.isSome_iff_exists]
  exact exists_congr fun _ => ofBytes?_eq_ok_iff_ofWord?

end Instruction

namespace Written

theorem encode_cons_cons (i : Written) (high low : UInt8) (rest : List UInt8) :
    i.encode (high :: low :: rest) =
      (.ok instructionSize, Word.highByte i.fit.word :: Word.lowByte i.fit.word :: rest) := rfl

/-- A buffer that is too short for an instruction stays as it is. -/
theorem encode_of_length_lt (i : Written) {buffer : List UInt8}
    (h : buffer.length < instructionSize) : i.encode buffer = (.error .endOfBuffer, buffer) := by
  match buffer, h with
  | [], _ => rfl
  | [_], _ => rfl

/-- Writing what was read from a buffer puts its first two bytes back. -/
theorem encode_of_ofBytes? {high low : UInt8} {rest : List UInt8} {i : Instruction}
    (h : Instruction.ofBytes? (high :: low :: rest) = .ok i) (high' low' : UInt8)
    (rest' : List UInt8) :
    i.written.encode (high' :: low' :: rest') = (.ok instructionSize, high :: low :: rest') := by
  have hword : i.word = Word.ofBytes high low :=
    Instruction.word_of_ofWord? (Instruction.ofBytes?_eq_ok_iff_ofWord?.1 h)
  rw [encode_cons_cons, fit_written, hword, Word.highByte_ofBytes, Word.lowByte_ofBytes]

/-- Reading what was written gives the instruction with each operand cut to its place. -/
theorem ofBytes?_encode (i : Written) (high low : UInt8) (rest : List UInt8) :
    Instruction.ofBytes? (i.encode (high :: low :: rest)).2 = .ok i.fit := by
  rw [encode_cons_cons, Instruction.ofBytes?_eq_ok_iff_ofWord?, Word.ofBytes_highByte_lowByte]
  exact Instruction.ofWord?_word i.fit

end Written

open Instruction in
/-- **Reading and writing instructions are inverse.**

* Only the first two bytes of a buffer are read. They are an instruction exactly if their word is on
  the opcode map, and it is the one whose digits the word has and whose operands are the parts of
  the word under their letters.
* Writing what was read puts the same two bytes at the beginning of any buffer.
* Writing an instruction with operands of any size changes the first two bytes of a buffer only, and
  they are read as the same kind of instruction, with the low bits of each operand that have a place
  in the word. A buffer of fewer bytes stays as it is. -/
theorem Instruction.read_write_inverse :
    (∀ high low rest,
      (∀ rest', ofBytes? (high :: low :: rest') = ofBytes? (high :: low :: rest)) ∧
      ((∃ i, ofBytes? (high :: low :: rest) = .ok i) ↔ Word.IsOpcode (Word.ofBytes high low)) ∧
      ∀ i, ofBytes? (high :: low :: rest) = .ok i ↔
        Word.Fits (Word.ofBytes high low) i.pattern ∧
          i.written.fields ⊆ Word.fields (Word.ofBytes high low)) ∧
    (∀ high low rest i, ofBytes? (high :: low :: rest) = .ok i →
      ∀ high' low' rest', i.written.encode (high' :: low' :: rest') =
        (.ok instructionSize, high :: low :: rest')) ∧
    (∀ (i : Written) high low rest, ∃ high' low',
      i.encode (high :: low :: rest) = (.ok instructionSize, high' :: low' :: rest) ∧
      ofBytes? (high' :: low' :: rest) = .ok i.fit ∧
      i.fit.written.name = i.name ∧
      i.fit.written.fields = i.fields.map fun (letter, v) => (letter, v % fieldSize letter)) ∧
    ∀ (i : Written) (buffer : List UInt8), buffer.length < instructionSize →
      i.encode buffer = (.error .endOfBuffer, buffer) := by
  refine ⟨?_, ?_, ?_, ?_⟩
  · intro high low rest
    exact ⟨fun _ => rfl, exists_ofBytes?_eq_ok_iff, fun _ => ofBytes?_eq_ok_iff⟩
  · intro high low rest i h
    exact Written.encode_of_ofBytes? h
  · intro i high low rest
    exact ⟨_, _, i.encode_cons_cons high low rest, i.ofBytes?_encode high low rest, i.name_fit,
      i.fields_fit⟩
  · intro i buffer h
    exact i.encode_of_length_lt h

end Chip8
