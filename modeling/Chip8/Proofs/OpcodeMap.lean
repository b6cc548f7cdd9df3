import Chip8.Instruction.Inverse

/-!
# The opcode map

Which words stand for instructions, said by their nibbles (`Word.IsOpcode`). `ofWord?_isSome_iff`
says that exactly these words are read as instructions; calls and returns are picked out by
`exists_call_iff` and `ofWord?_eq_ret_iff`.
-/

namespace Chip8

/-- The words of the opcode map. -/
def Word.IsOpcode (w : UInt16) : Prop :=
  match (nibble w 3).val with
  | 0x0 => w = 0x00e0 ∨ w = 0x00ee
  | 0x5 | 0x9 => (nibble w 0).val = 0
  | 0x8 => (nibble w 0).val ≤ 0x7 ∨ (nibble w 0).val = 0xe
  | 0xe => (lowByte w).toNat ∈ [0x9e, 0xa1]
  | 0xf => (lowByte w).toNat ∈ [0x07, 0x0a, 0x15, 0x18, 0x1e, 0x29, 0x33, 0x55, 0x65]
  | _ => True

namespace Instruction

theorem isSome_ofCode?_iff (n : Fin 16) :
    (Calculation.ofCode? n).isSome ↔ n.val ≤ 0x7 ∨ n.val = 0xe := by
  revert n
  decide

theorem isSome_ofKeyByte?_iff (x : Fin 16) (b : UInt8) :
    (ofKeyByte? x b).isSome ↔ b.toNat ∈ [0x9e, 0xa1] := by
  unfold ofKeyByte?
  split <;> simp_all

theorem isSome_ofRegisterByte?_iff (x : Fin 16) (b : UInt8) :
    (ofRegisterByte? x b).isSome ↔
      b.toNat ∈ [0x07, 0x0a, 0x15, 0x18, 0x1e, 0x29, 0x33, 0x55, 0x65] := by
  unfold ofRegisterByte?
  split <;> simp_all

/-- A word of group zero is told by its address. -/
theorem eq_iff_of_nibble_eq_zero {w v : UInt16} (h : (Word.nibble w 3).val = 0)
    (hv : v.toNat < 4096) : w = v ↔ (Word.lowAddress w).val = v.toNat := by
  have hw := Word.toNat_eq_nibbles w
  rw [← UInt16.toNat_inj, Word.val_lowAddress]
  omega

/-- **A word is read as an instruction exactly if it is on the opcode map.** -/
theorem ofWord?_isSome_iff (w : UInt16) : (ofWord? w).isSome ↔ Word.IsOpcode w := by
  unfold ofWord? Word.IsOpcode
  dsimp only
  -- the group decides both sides; only five groups leave words out
  split <;> rename_i h <;> simp only [h]
  case h_1 =>
    rw [eq_iff_of_nibble_eq_zero h (by decide), eq_iff_of_nibble_eq_zero h (by decide)]
    show _ ↔ (Word.lowAddress w).val = 0x0e0 ∨ (Word.lowAddress w).val = 0x0ee
    split
    · rename_i ha
      exact ⟨fun _ => .inl ha, fun _ => rfl⟩
    · rename_i ha
      rw [Option.isSome_ite, or_iff_right ha]
  case h_6 | h_10 => exact Option.isSome_ite
  case h_9 => rw [Option.isSome_map, isSome_ofCode?_iff]
  case h_15 => exact isSome_ofKeyByte?_iff _ _
  case h_16 => exact isSome_ofRegisterByte?_iff _ _
  case h_17 =>
    have hlt := (Word.nibble w 3).isLt
    grind
  all_goals exact ⟨fun _ => trivial, fun _ => rfl⟩

/-! ## Calls and returns -/

theorem ofWord?_eq_ret_iff (w : UInt16) : ofWord? w = some .ret ↔ w = 0x00ee :=
  ofWord?_eq_some_iff

/-- The words of group two are the calls. -/
theorem exists_call_iff (w : UInt16) :
    (∃ a, ofWord? w = some (.call a)) ↔ (Word.nibble w 3).val = 2 := by
  constructor
  · rintro ⟨a, ha⟩
    obtain rfl := ofWord?_eq_some_iff.1 ha
    show (Instr.call a).word.toNat >>> 12 % 16 = 2
    rw [Instr.toNat_word]
    simp only [Instr.code]
    omega
  · intro h
    refine ⟨Word.lowAddress w, ?_⟩
    unfold ofWord?
    simp only [h]

end Instruction

end Chip8
