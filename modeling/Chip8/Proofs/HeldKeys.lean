import Chip8.Proofs.ProgramCounter
import Mathlib.Data.Nat.Bitwise

/-!
# Held keys

A host presses keys and lets them go, one of them or all at once. It names a key by a number, and a
number above fifteen is refused. A key is held down if it was pressed and has not been let go since,
and this is what the machine sees, which asks with a byte and means its low nibble.

* `Keypad.HeldAfter` says which keys some touches should leave down, and `Keypad.isDown_touchedBy`
  that they do.
* `Keypad.Turns` says what a touch of one key should leave, and `Keypad.turns_set` that it does.
* `KeyMask` is a keypad as a word with a bit for each key; `KeyMask.touch_keypad` says that it is
  touched like a keypad, and `KeyMask.isDown_keypad` that it is seen like one.
* `Machine.skipsIf_step` says when a skip on a key skips.
* `Keypad.held_by_history` puts these together.
-/

namespace Chip8

/-! ## Touches -/

/-- Something that a host does with a keypad. -/
inductive Touch
  | press (key : Nat)
  | release (key : Nat)
  | releaseAll
  deriving DecidableEq, Repr

/-- What a touch leaves: its answer or the fault, and the keypad. The answer to a touch of one key
is whether that changed it. -/
structure Touched (κ : Type) where
  answer : Except Fault (Option Bool)
  keypad : κ

/-- What a touch leaves, with the keypad seen in another way. -/
def Touched.map {κ μ : Type} (f : κ → μ) (r : Touched κ) : Touched μ :=
  ⟨r.answer, f r.keypad⟩

namespace Keypad

/-- What a change of one key leaves. A change that is refused leaves the keypad as it was. -/
def changed (k : Keypad) : Except Fault (Bool × Keypad) → Touched Keypad
  | .ok (new, k') => ⟨.ok (some new), k'⟩
  | .error fault => ⟨.error fault, k⟩

/-- Touch a keypad. -/
def touch (k : Keypad) : Touch → Touched Keypad
  | .press key => k.changed (k.press key)
  | .release key => k.changed (k.release key)
  | .releaseAll => ⟨.ok none, idle⟩

/-- The keypad after some touches, whatever their answers are. -/
def touchedBy (k : Keypad) (touches : List Touch) : Keypad :=
  touches.foldl (fun k t => (k.touch t).keypad) k

theorem touchedBy_cons (k : Keypad) (t : Touch) (touches : List Touch) :
    k.touchedBy (t :: touches) = (k.touch t).keypad.touchedBy touches := rfl

/-! ## One touch -/

/-- What pressing a key should leave (`down`), or letting it go. There are sixteen keys, and any
other number is refused. The answer is whether the key was otherwise before, and the other keys are
as they were. -/
structure Turns (k : Keypad) (key : Nat) (down : Bool) (r : Touched Keypad) : Prop where
  refused : 15 < key → r = ⟨.error (.invalidKey key), k⟩
  answer : key ≤ 15 → r.answer = .ok (some (k.isDown (UInt8.ofNat key) != down))
  isDown : ∀ b, r.keypad.isDown b = if b.toNat % 16 = key then down else k.isDown b

theorem turns_of_lt (k : Keypad) {key : Nat} (h : 15 < key) (down : Bool) :
    k.Turns key down ⟨.error (.invalidKey key), k⟩ :=
  ⟨fun _ => rfl, fun hle => by omega, fun b => by rw [if_neg (by omega)]⟩

/-- **A change of one key leaves what it should.** -/
theorem turns_set (k : Keypad) (key : Nat) (down : Bool) :
    k.Turns key down (k.changed (k.set key down)) := by
  rcases Nat.lt_or_ge key 16 with hlt | hle
  · obtain ⟨k', hset, hdown⟩ := k.set_of_lt hlt down
    rw [hset]
    exact ⟨fun h => by omega, fun _ => rfl, hdown⟩
  · rw [k.set_of_le hle]
    exact k.turns_of_lt hle down

theorem turns_press (k : Keypad) (key : Nat) : k.Turns key true (k.touch (.press key)) :=
  k.turns_set key true

theorem turns_release (k : Keypad) (key : Nat) : k.Turns key false (k.touch (.release key)) :=
  k.turns_set key false

/-- A keypad is known by the keys that a machine sees. -/
theorem ext_isDown {k k' : Keypad} (h : ∀ b, k.isDown b = k'.isDown b) : k = k' := by
  obtain ⟨held⟩ := k
  obtain ⟨held'⟩ := k'
  congr
  ext key hkey
  have hmod : key % 256 % 16 = key := by omega
  simpa [isDown, hmod] using h (UInt8.ofNat key)

/-- What a touch of one key should leave is settled by that. -/
theorem Turns.eq {k : Keypad} {key : Nat} {down : Bool} {r r' : Touched Keypad}
    (h : k.Turns key down r) (h' : k.Turns key down r') : r = r' := by
  rcases Nat.lt_or_ge 15 key with hlt | hle
  · rw [h.refused hlt, h'.refused hlt]
  · have hanswer : r.answer = r'.answer := (h.answer hle).trans (h'.answer hle).symm
    have hkeypad : r.keypad = r'.keypad :=
      ext_isDown fun b => (h.isDown b).trans (h'.isDown b).symm
    cases r
    cases r'
    simp only at hanswer hkeypad
    rw [hanswer, hkeypad]

/-- After a touch a key is down if that pressed it, or if it was down and the touch did not let it
go. -/
theorem isDown_touch (k : Keypad) (t : Touch) (b : UInt8) :
    (k.touch t).keypad.isDown b = true ↔
      t = .press (b.toNat % 16) ∨
        k.isDown b = true ∧ t ≠ .release (b.toNat % 16) ∧ t ≠ .releaseAll := by
  cases t with
  | press key =>
    rw [(k.turns_press key).isDown]
    grind
  | release key =>
    rw [(k.turns_release key).isDown]
    grind
  | releaseAll => simp [touch, isDown_idle]

/-! ## The history -/

/-- One of the sixteen keys is held down after some touches of a keypad that was idle: it was
pressed, and after that neither it nor every key was let go. -/
def HeldAfter (touches : List Touch) (key : Nat) : Prop :=
  ∃ before after, touches = before ++ .press key :: after ∧
    .release key ∉ after ∧ .releaseAll ∉ after

theorem not_heldAfter_nil (key : Nat) : ¬HeldAfter [] key := by
  simp [HeldAfter]

/-- The press that counts is a later one or the first touch. -/
theorem heldAfter_cons (t : Touch) (touches : List Touch) (key : Nat) :
    HeldAfter (t :: touches) key ↔
      HeldAfter touches key ∨ t = .press key ∧ .release key ∉ touches ∧ .releaseAll ∉ touches := by
  constructor
  · rintro ⟨before, after, heq, hafter⟩
    rcases List.cons_eq_append_iff.1 heq with ⟨rfl, hcons⟩ | ⟨before, rfl, rfl⟩
    · obtain ⟨rfl, rfl⟩ := List.cons.inj hcons
      exact .inr ⟨rfl, hafter⟩
    · exact .inl ⟨before, after, rfl, hafter⟩
  · rintro (⟨before, after, rfl, hafter⟩ | ⟨rfl, hafter⟩)
    · exact ⟨t :: before, after, rfl, hafter⟩
    · exact ⟨[], touches, rfl, hafter⟩

/-- **The keys that are down are those that the touches hold**, and those that were down before and
have not been let go. -/
theorem isDown_touchedBy (k : Keypad) (touches : List Touch) (b : UInt8) :
    (k.touchedBy touches).isDown b = true ↔
      HeldAfter touches (b.toNat % 16) ∨
        k.isDown b = true ∧ .release (b.toNat % 16) ∉ touches ∧ .releaseAll ∉ touches := by
  -- from the front, so that the first touch counts only where the later ones leave its key alone
  induction touches generalizing k with
  | nil => simp [touchedBy, not_heldAfter_nil]
  | cons t touches ih =>
    rw [touchedBy_cons, ih, isDown_touch, heldAfter_cons]
    grind

end Keypad

/-! ## Keys as bits -/

/-- A keypad as a word, in which the bits of the keys are set that are held down. -/
structure KeyMask where
  held : UInt16
  deriving DecidableEq, Repr

namespace KeyMask

/-- The mask of a keypad that nobody touches. -/
def idle : KeyMask := ⟨0⟩

/-- The word with the bit of a key. -/
def bit (key : Nat) : UInt16 :=
  1 <<< UInt16.ofNat key

/-- The word with the bit of a key. There are sixteen keys. -/
def bit? (key : Nat) : Except Fault UInt16 :=
  if key ≤ 0xf then .ok (bit key) else .error (.invalidKey key)

/-- Whether the key of the low nibble of a byte is held down. -/
def isDown (w : KeyMask) (key : UInt8) : Bool :=
  w.held &&& (1 <<< (key &&& 0xf).toUInt16) != 0

/-- Touch a keypad. -/
def touch (w : KeyMask) : Touch → Touched KeyMask
  | .press key =>
    match bit? key with
    | .ok mask => ⟨.ok (some (w.held &&& mask == 0)), ⟨w.held ||| mask⟩⟩
    | .error fault => ⟨.error fault, w⟩
  | .release key =>
    match bit? key with
    | .ok mask => ⟨.ok (some (w.held &&& mask != 0)), ⟨w.held &&& ~~~mask⟩⟩
    | .error fault => ⟨.error fault, w⟩
  | .releaseAll => ⟨.ok none, idle⟩

/-- The mask after some touches, whatever their answers are. -/
def touchedBy (w : KeyMask) (touches : List Touch) : KeyMask :=
  touches.foldl (fun w t => (w.touch t).keypad) w

theorem touchedBy_cons (w : KeyMask) (t : Touch) (touches : List Touch) :
    w.touchedBy (t :: touches) = (w.touch t).keypad.touchedBy touches := rfl

/-- The keypad of a mask. -/
def keypad (w : KeyMask) : Keypad :=
  ⟨Vector.ofFn fun key => w.held.toBitVec.getLsbD key⟩

theorem toBitVec_bit {key : Nat} (h : key < 16) : (bit key).toBitVec = BitVec.twoPow 16 key := by
  have hbit : ∀ key : Fin 16, (bit key).toBitVec = BitVec.twoPow 16 key := by decide
  exact hbit ⟨key, h⟩

/-- Of a word and a bit something is left just if the word has that bit. -/
theorem and_bit_bne_zero (w : UInt16) {key : Nat} (h : key < 16) :
    (w &&& bit key != 0) = w.toBitVec.getLsbD key := by
  have hbit : (bit key).toNat = 2 ^ key := by
    rw [← UInt16.toNat_toBitVec, toBitVec_bit h, BitVec.toNat_twoPow_of_lt h]
  rw [Bool.eq_iff_iff, bne_iff_ne, ne_eq, ← UInt16.toNat_inj, UInt16.toNat_and, hbit,
    Nat.and_two_pow, ← BitVec.testBit_toNat, UInt16.toNat_toBitVec]
  cases w.toNat.testBit key <;> simp

theorem getLsbD_or_bit (w : UInt16) {key : Nat} (h : key < 16) (j : Nat) :
    (w ||| bit key).toBitVec.getLsbD j = if j = key then true else w.toBitVec.getLsbD j := by
  rw [UInt16.toBitVec_or, toBitVec_bit h, BitVec.getLsbD_or, BitVec.getLsbD_twoPow]
  grind

theorem getLsbD_and_not_bit (w : UInt16) {key : Nat} (h : key < 16) (j : Nat) :
    (w &&& ~~~bit key).toBitVec.getLsbD j = if j = key then false else w.toBitVec.getLsbD j := by
  rw [UInt16.toBitVec_and, UInt16.toBitVec_not, toBitVec_bit h, BitVec.getLsbD_and,
    BitVec.getLsbD_not, BitVec.getLsbD_twoPow]
  grind

/-- A key is seen to be down if its bit is set. -/
theorem isDown_keypad_eq (w : KeyMask) (b : UInt8) :
    w.keypad.isDown b = w.held.toBitVec.getLsbD (b.toNat % 16) := by
  have hlt : b.toNat % 16 < 16 := by omega
  simp [keypad, Keypad.isDown, BitVec.getLsbD_eq_getElem hlt]

theorem bit_nibble (b : UInt8) : 1 <<< (b &&& 0xf).toUInt16 = bit (b.toNat % 16) := by
  have hand : (b &&& 0xf).toNat = b.toNat % 16 :=
    (UInt8.toNat_and b 0xf).trans (Nat.and_two_pow_sub_one_eq_mod b.toNat 4)
  rw [bit, ← hand, UInt16.ofNat_uInt8ToNat]

/-- **A mask is seen like its keypad.** -/
theorem isDown_keypad (w : KeyMask) (b : UInt8) : w.keypad.isDown b = w.isDown b := by
  rw [isDown, bit_nibble, and_bit_bne_zero _ (by omega), isDown_keypad_eq]

/-- To change the bit of a key in the word is to change the key in its keypad. -/
theorem turns_keypad (w : KeyMask) {key : Nat} (h : key ≤ 15) {down new : Bool} {held : UInt16}
    (hnew : new = (w.held.toBitVec.getLsbD key != down))
    (hheld : ∀ j, held.toBitVec.getLsbD j = if j = key then down else w.held.toBitVec.getLsbD j) :
    w.keypad.Turns key down ⟨.ok (some new), (⟨held⟩ : KeyMask).keypad⟩ := by
  refine ⟨fun hlt => by omega, fun _ => ?_, fun b => ?_⟩
  · have hmod : key % 256 % 16 = key := by omega
    simp [isDown_keypad_eq, hmod, hnew]
  · simp only [isDown_keypad_eq, hheld]

theorem turns_press (w : KeyMask) (key : Nat) :
    w.keypad.Turns key true ((w.touch (.press key)).map keypad) := by
  rcases Nat.lt_or_ge 15 key with hlt | hle
  · rw [touch, bit?, if_neg (by omega)]
    exact w.keypad.turns_of_lt hlt true
  · have hkey : key < 16 := by omega
    have hnew : (w.held &&& bit key == 0) = (w.held.toBitVec.getLsbD key != true) := by
      rw [← and_bit_bne_zero w.held hkey, Bool.bne_true, bne, Bool.not_not]
    rw [touch, bit?, if_pos hle]
    exact w.turns_keypad hle hnew (getLsbD_or_bit w.held hkey)

theorem turns_release (w : KeyMask) (key : Nat) :
    w.keypad.Turns key false ((w.touch (.release key)).map keypad) := by
  rcases Nat.lt_or_ge 15 key with hlt | hle
  · rw [touch, bit?, if_neg (by omega)]
    exact w.keypad.turns_of_lt hlt false
  · have hkey : key < 16 := by omega
    have hnew : (w.held &&& bit key != 0) = (w.held.toBitVec.getLsbD key != false) := by
      rw [and_bit_bne_zero w.held hkey, Bool.bne_false]
    rw [touch, bit?, if_pos hle]
    exact w.turns_keypad hle hnew (getLsbD_and_not_bit w.held hkey)

theorem keypad_idle : idle.keypad = Keypad.idle := by decide

/-- **A mask is touched like its keypad.** -/
theorem touch_keypad (w : KeyMask) (t : Touch) : (w.touch t).map keypad = w.keypad.touch t := by
  cases t with
  | press key => exact (w.turns_press key).eq (w.keypad.turns_press key)
  | release key => exact (w.turns_release key).eq (w.keypad.turns_release key)
  | releaseAll =>
    rw [Keypad.touch, ← keypad_idle]
    rfl

theorem keypad_touchedBy (w : KeyMask) (touches : List Touch) :
    (w.touchedBy touches).keypad = w.keypad.touchedBy touches := by
  induction touches generalizing w with
  | nil => rfl
  | cons t touches ih =>
    have hkeypad : (w.touch t).keypad.keypad = (w.keypad.touch t).keypad := by
      rw [← touch_keypad, Touched.map]
    rw [touchedBy_cons, ih, hkeypad, Keypad.touchedBy_cons]

end KeyMask

/-! ## Skips -/

namespace Machine

/-- A step comes out well. If the condition holds it passes over the next instruction, and otherwise
it goes on to it. -/
structure SkipsIf (m : Machine) (condition : Prop) (r : Report Unit) : Prop where
  answer : r.answer = .ok ()
  skips : condition → r.machine.pc.toNat = (m.pc.toNat + 4) % 4096
  goesOn : ¬condition → r.machine.pc.toNat = (m.pc.toNat + 2) % 4096

/-- **A skip on a key skips if the key is down, or if it is up**, as the instruction says. -/
theorem skipsIf_step {m : Machine} {expected : Bool} {x : Fin 16}
    (h : m.AboutTo (.skip expected (.key x))) (keypad : Keypad) (dice : UInt8) :
    m.SkipsIf (keypad.isDown (m.register x) = true ↔ expected = true) (m.step keypad dice) := by
  have hholds : (Test.key x).Holds m keypad ↔ keypad.isDown (m.register x) = true :=
    (m.passes_iff keypad (.key x)).symm
  have hgoes : m.GoesOn keypad (m.step keypad dice).machine (.skip expected (.key x)) :=
    goesOn_step_skip h
  rw [← hholds]
  exact ⟨answer_step_skip h, hgoes.1, hgoes.2⟩

end Machine

/-! ## Keys held by the history -/

namespace Keypad

/-- **The keys held down are those that the history holds.** Take a keypad that was idle, and any
touches of it.

* A key is down if it was pressed and neither it nor every key was let go after that. Of a byte that
  asks for a key the low nibble counts.
* Pressing a key and letting it go come out as they should: numbers above fifteen are refused and
  change nothing, and no others are; the answer is whether the key was otherwise, and the other keys
  stay as they were.
* A word with a bit for each key, after the same touches, is seen like this keypad, and a further
  touch leaves the same.
* A machine with this keypad that is about to skip on a key does so if the history holds the key, or
  if it does not, as the instruction says. The key is the value of the register modulo sixteen. -/
theorem held_by_history (touches : List Touch) :
    let k := idle.touchedBy touches
    let w := KeyMask.idle.touchedBy touches
    (∀ key < 16, k.isDown (UInt8.ofNat key) = true ↔ HeldAfter touches key) ∧
    (∀ b, k.isDown b = k.isDown (b % 16)) ∧
    (∀ key, k.Turns key true (k.touch (.press key)) ∧
      k.Turns key false (k.touch (.release key))) ∧
    (∀ b, w.isDown b = k.isDown b) ∧
    (∀ t, (w.touch t).map KeyMask.keypad = k.touch t) ∧
    ∀ (m : Machine) (dice : UInt8) (x : Fin 16),
      let held := HeldAfter touches ((m.register x).toNat % 16)
      (m.AboutTo (.skip true (.key x)) → m.SkipsIf held (m.step k dice)) ∧
      (m.AboutTo (.skip false (.key x)) → m.SkipsIf (¬held) (m.step k dice)) := by
  intro k w
  have hdown : ∀ b, k.isDown b = true ↔ HeldAfter touches (b.toNat % 16) := by
    intro b
    simp [k, isDown_touchedBy, isDown_idle]
  have hkeypad : w.keypad = k := by
    rw [KeyMask.keypad_touchedBy, KeyMask.keypad_idle]
  refine ⟨fun key hkey => ?_, fun b => (k.isDown_mod b).symm,
    fun key => ⟨k.turns_press key, k.turns_release key⟩, fun b => ?_, fun t => ?_,
    fun m dice x => ⟨fun h => ?_, fun h => ?_⟩⟩
  · have hmod : (UInt8.ofNat key).toNat % 16 = key := by
      rw [UInt8.toNat_ofNat']
      omega
    rw [hdown, hmod]
  · rw [← KeyMask.isDown_keypad, hkeypad]
  · rw [KeyMask.touch_keypad, hkeypad]
  · simpa [hdown] using m.skipsIf_step h k dice
  · simpa [hdown] using m.skipsIf_step h k dice

/-- A key that is pressed before all keys are let go is up, and so is one that does not exist. -/
example :
    (idle.touchedBy [.press 5, .releaseAll, .press 3, .press 19, .release 35]).heldKeys = [3] := by
  decide

end Keypad

end Chip8
