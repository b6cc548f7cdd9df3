import Chip8.Text.Outline

/-!
# Timers

The two timers count down to zero and stay there. The sound timer drives the tone: `Timers.tick`
says whether this tick was the one that brought it to zero.

* `delay_tick` and `sound_tick` say what a tick leaves.
* `tick_fst_iff` says when the sound ends.
-/

namespace Chip8

open Text

/-- The delay timer and the sound timer. -/
structure Timers where
  delay : UInt8 := 0
  sound : UInt8 := 0
  deriving DecidableEq, Repr

namespace Timers

/-- One less, and zero after zero. -/
def countDown (t : UInt8) : UInt8 :=
  if t = 0 then 0 else t - 1

/-- Both timers one lower, and whether the sound timer has come to zero by it. -/
def tick (t : Timers) : Bool × Timers :=
  (t.sound = 1, ⟨countDown t.delay, countDown t.sound⟩)

/-- The timers with a new delay. -/
def setDelay (t : Timers) (value : UInt8) : Timers :=
  { t with delay := value }

/-- The timers with a new sound, and the sound before. -/
def setSound (t : Timers) (value : UInt8) : UInt8 × Timers :=
  (t.sound, { t with sound := value })

theorem toNat_countDown (t : UInt8) : (countDown t).toNat = t.toNat - 1 := by
  unfold countDown
  split
  · rename_i h
    simp [h]
  · rename_i h
    have h0 : t.toNat ≠ 0 := fun e => h (UInt8.toNat_inj.1 e)
    have hlt := t.toNat_lt
    rw [UInt8.toNat_sub_of_le _ _ (by rw [UInt8.le_iff_toNat_le]; simp; omega)]
    rfl

theorem delay_tick (t : Timers) : t.tick.2.delay.toNat = t.delay.toNat - 1 :=
  toNat_countDown _

theorem sound_tick (t : Timers) : t.tick.2.sound.toNat = t.sound.toNat - 1 :=
  toNat_countDown _

theorem tick_fst_iff (t : Timers) :
    t.tick.1 = true ↔ t.sound ≠ 0 ∧ t.tick.2.sound = 0 := by
  have h := sound_tick t
  have h1 : t.sound = 1 ↔ t.sound.toNat = 1 := UInt8.toNat_inj.symm
  have h2 : t.sound = 0 ↔ t.sound.toNat = 0 := UInt8.toNat_inj.symm
  have h3 : t.tick.2.sound = 0 ↔ t.tick.2.sound.toNat = 0 := UInt8.toNat_inj.symm
  rw [h3, ne_eq, h2, h]
  simp only [tick, decide_eq_true_eq, h1]
  omega

/-- The debug outline of the timers. -/
def outline (t : Timers) : Outline :=
  .record "Timers" [("delay", .number t.delay.toNat), ("sound", .number t.sound.toNat)] false

end Timers

end Chip8
