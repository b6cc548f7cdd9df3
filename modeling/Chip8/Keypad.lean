import Chip8.Fault

/-!
# The keypad

Sixteen keys, each held down or not. The machine asks with a byte, of which only the low nibble
counts (`Keypad.isDown`); the host names a key by a number, and a number above fifteen is refused
(`Keypad.press`, `Keypad.release`).

* `set_of_lt` and `set_of_le` say what pressing or letting go a key does, and when it is refused.
-/

namespace Chip8

/-- Which keys are held down. -/
structure Keypad where
  held : Vector Bool 16
  deriving DecidableEq, Repr

namespace Keypad

/-- The keypad that nobody touches. -/
def idle : Keypad :=
  ⟨Vector.replicate 16 false⟩

/-- Whether the key of the low nibble of a byte is held down. -/
def isDown (k : Keypad) (key : UInt8) : Bool :=
  k.held[key.toNat % 16]

/-- The keypad with a key held down or not as `down` says, and whether that is new. -/
def set (k : Keypad) (key : Nat) (down : Bool) : Except Fault (Bool × Keypad) :=
  if h : key < 16 then
    .ok (k.held[key] != down, ⟨k.held.set key down⟩)
  else
    .error (.invalidKey key)

/-- The keypad with a key pressed, and whether it was up. -/
def press (k : Keypad) (key : Nat) : Except Fault (Bool × Keypad) :=
  k.set key true

/-- The keypad with a key let go, and whether it was down. -/
def release (k : Keypad) (key : Nat) : Except Fault (Bool × Keypad) :=
  k.set key false

/-- The numbers of the keys held down, in ascending order. -/
def heldKeys (k : Keypad) : List Nat :=
  (List.range 16).filter fun key => k.isDown (UInt8.ofNat key)

theorem isDown_idle (b : UInt8) : idle.isDown b = false := by
  simp [idle, isDown]

theorem isDown_mod (k : Keypad) (b : UInt8) : k.isDown (b % 16) = k.isDown b := by
  simp [isDown]

/-- Changing a key tells whether it was otherwise, and leaves the other keys as they were. -/
theorem set_of_lt (k : Keypad) {key : Nat} (h : key < 16) (down : Bool) :
    ∃ k', k.set key down = .ok (k.isDown (UInt8.ofNat key) != down, k') ∧
      ∀ b : UInt8, k'.isDown b = if b.toNat % 16 = key then down else k.isDown b := by
  refine ⟨⟨k.held.set key down⟩, ?_, fun b => ?_⟩
  · have : key % 256 % 16 = key := by omega
    simp [set, h, isDown, this]
  · simp only [isDown, Vector.getElem_set, eq_comm]

theorem set_of_le (k : Keypad) {key : Nat} (h : 16 ≤ key) (down : Bool) :
    k.set key down = .error (.invalidKey key) := by
  simp [set, Nat.not_lt.2 h]

end Keypad

end Chip8
