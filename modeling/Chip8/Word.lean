/-!
# Words and addresses

A word of the machine has sixteen bits. An instruction is read off a word by its four nibbles, its
low byte or its low twelve bits, and the twelve bits are an address: memory has 4096 cells, so an
address past the end goes round to the beginning (`Word.wrap`).

* `Word.toNat_eq_nibbles` says that a word is made of its four nibbles, and
  `Word.ofBytes_highByte_lowByte` that it is made of its two bytes.
* `Word.toNat_wrap` says that wrapping keeps the twelve low bits.
-/

namespace Chip8

/-- Numerals stand for nibbles, and for registers. -/
instance neZero_sixteen : @NeZero Nat Zero.ofOfNat0 16 := Nat.instNeZeroSucc

namespace Word

/-! ## Parts of a word -/

/-- The nibble of `w` at the place `k`, the lowest one at place zero. -/
def nibble (w : UInt16) (k : Nat) : Fin 16 :=
  ⟨(w.toNat >>> (4 * k)) % 16, Nat.mod_lt _ (by decide)⟩

/-- The low byte of a word. -/
def lowByte (w : UInt16) : UInt8 :=
  UInt8.ofNat w.toNat

/-- The high byte of a word. -/
def highByte (w : UInt16) : UInt8 :=
  UInt8.ofNat (w.toNat / 256)

/-- The low twelve bits of a word. -/
def lowAddress (w : UInt16) : Fin 4096 :=
  ⟨w.toNat % 4096, Nat.mod_lt _ (by decide)⟩

/-- The word with the given high and low byte. -/
def ofBytes (high low : UInt8) : UInt16 :=
  UInt16.ofNat (256 * high.toNat + low.toNat)

theorem toNat_eq_nibbles (w : UInt16) :
    w.toNat = 4096 * (nibble w 3).val + 256 * (nibble w 2).val + 16 * (nibble w 1).val
      + (nibble w 0).val := by
  have := w.toNat_lt
  simp only [nibble]
  omega

theorem toNat_lowByte (w : UInt16) : (lowByte w).toNat = w.toNat % 256 := by
  simp [lowByte]

theorem val_lowAddress (w : UInt16) : (lowAddress w).val = w.toNat % 4096 := rfl

theorem toNat_ofBytes (high low : UInt8) :
    (ofBytes high low).toNat = 256 * high.toNat + low.toNat := by
  have := high.toNat_lt
  have := low.toNat_lt
  simp only [ofBytes, UInt16.toNat_ofNat']
  omega

theorem highByte_ofBytes (high low : UInt8) : highByte (ofBytes high low) = high := by
  have := high.toNat_lt
  have := low.toNat_lt
  rw [← UInt8.toNat_inj, highByte, toNat_ofBytes, UInt8.toNat_ofNat']
  omega

theorem lowByte_ofBytes (high low : UInt8) : lowByte (ofBytes high low) = low := by
  have := low.toNat_lt
  rw [← UInt8.toNat_inj, toNat_lowByte, toNat_ofBytes]
  omega

theorem ofBytes_highByte_lowByte (w : UInt16) : ofBytes (highByte w) (lowByte w) = w := by
  have := w.toNat_lt
  rw [← UInt16.toNat_inj, toNat_ofBytes, toNat_lowByte, highByte, UInt8.toNat_ofNat']
  omega

/-! ## Addresses -/

/-- The address of the cell with the number `n`, counted round the end of memory. -/
def wrap (n : Nat) : UInt16 :=
  UInt16.ofNat (n % 4096)

@[simp]
theorem toNat_wrap (n : Nat) : (wrap n).toNat = n % 4096 := by
  simp only [wrap, UInt16.toNat_ofNat']
  omega

theorem toNat_wrap_lt (n : Nat) : (wrap n).toNat < 4096 := by
  rw [toNat_wrap]
  omega

theorem wrap_toNat {w : UInt16} (h : w.toNat < 4096) : wrap w.toNat = w := by
  rw [← UInt16.toNat_inj, toNat_wrap, Nat.mod_eq_of_lt h]

theorem wrap_toNat_wrap (n : Nat) : wrap (wrap n).toNat = wrap n :=
  wrap_toNat (toNat_wrap_lt n)

end Word

end Chip8
