/-!
# Dice

A fair source of bytes that is fixed by a seed: the n-th byte is taken from a mixture of the seed
and n in which every bit depends on every bit of both.
-/

namespace Chip8.Dice

/-- A word in which each bit depends on every bit of `z`. -/
def mix (z : UInt64) : UInt64 :=
  let z := (z ^^^ (z >>> 30)) * 0xbf58476d1ce4e5b9
  let z := (z ^^^ (z >>> 27)) * 0x94d049bb133111eb
  z ^^^ (z >>> 31)

/-- The n-th byte of the dice with a seed. -/
def roll (seed : UInt64) (n : Nat) : UInt8 :=
  (mix (seed + UInt64.ofNat (n + 1) * 0x9e3779b97f4a7c15)).toUInt8

end Chip8.Dice
