/-!
# The screen

The screen has 32 rows of 64 pixels, each lit or dark. Every row is a word of 64 bits with its
leftmost pixel in the highest bit. A sprite is a list of bytes, one for each row of eight pixels; it
is drawn by turning over every pixel that it covers, and whatever goes over an edge comes back at
the opposite one.

* `Screen.pixel` is the view through which a screen is described.
* `Screen.draw` draws a sprite and tells which pixels it turned over. `getMsbD_band` says which
  pixels a row of a sprite covers, and `pixel_drawRow` that they are turned over.
-/

namespace Chip8

/-- The pixels of the screen, a word of bits for each row. -/
structure Screen where
  rows : Vector (BitVec 64) 32
  deriving DecidableEq

namespace Screen

/-- The number of pixels in a row. -/
def width : Nat := 64

/-- The number of rows. -/
def height : Nat := 32

/-- The dark screen. -/
def blank : Screen :=
  ⟨Vector.replicate 32 0⟩

/-- Whether the pixel at a place is lit, the place counted round the edges. -/
def pixel (s : Screen) (x y : Nat) : Bool :=
  s.rows[y % 32].getMsbD (x % 64)

/-- Whether no pixel is lit. -/
def isBlank (s : Screen) : Bool :=
  s.rows.toList.all (· == 0)

/-- The pixels with their places, row by row and each row from the left. -/
def pixels (s : Screen) : List (Nat × Nat × Bool) :=
  (List.range height).flatMap fun y =>
    (List.range width).map fun x => (x, y, s.pixel x y)

@[simp]
theorem pixel_blank (x y : Nat) : blank.pixel x y = false := by
  simp [blank, pixel]

theorem pixel_mod (s : Screen) (x y : Nat) : s.pixel (x % 64) (y % 32) = s.pixel x y := by
  simp [pixel]

/-- Screens with the same pixels are equal. -/
@[ext]
theorem ext_pixel {s s' : Screen} (h : ∀ x y, s.pixel x y = s'.pixel x y) : s = s' := by
  obtain ⟨rows⟩ := s
  obtain ⟨rows'⟩ := s'
  congr 1
  ext1 y hy
  refine BitVec.eq_of_getMsbD_eq fun x hx => ?_
  have := h x y
  simpa only [pixel, Nat.mod_eq_of_lt hy, Nat.mod_eq_of_lt hx] using this

/-! ## Drawing -/

/-- A pixel that was turned over, with what it is now. -/
structure Toggle where
  x : Nat
  y : Nat
  lit : Bool
  deriving DecidableEq, Repr

/-- What drawing leaves: the screen, whether a lit pixel went dark, and the pixels that were turned
over in the order of their change. -/
structure Drawing where
  screen : Screen
  collision : Bool
  toggles : List Toggle
  deriving DecidableEq

/-- The pixels of a row that a byte of a sprite covers at the column `x`. -/
def band (b : UInt8) (x : Nat) : BitVec 64 :=
  (BitVec.ofNat 64 (b.toNat <<< 56)).rotateRight x

/-- A byte in the eight highest bits. -/
theorem getMsbD_ofNat_shiftLeft (b : UInt8) {k : Nat} (hk : k < 64) :
    (BitVec.ofNat 64 (b.toNat <<< 56)).getMsbD k =
      (decide (k < 8) && b.toNat.testBit (7 - k)) := by
  rw [BitVec.getMsbD_eq_getLsbD, BitVec.getLsbD_ofNat, Nat.testBit_shiftLeft]
  by_cases h : k < 8
  · have h1 : 56 ≤ 64 - 1 - k := by omega
    have h2 : 64 - 1 - k - 56 = 7 - k := by omega
    have h3 : 64 - 1 - k < 64 := by omega
    simp only [hk, h, h1, h2, h3, decide_true, Bool.true_and]
  · have h1 : ¬56 ≤ 64 - 1 - k := by omega
    simp only [h, h1, decide_false, Bool.false_and, Bool.and_false]

/-- A byte at the column `x` covers the eight pixels from there on, round the edge, in which its
bits are set, the highest bit first. -/
theorem getMsbD_band (b : UInt8) {x px : Nat} (hx : x < 64) (hpx : px < 64) :
    (band b x).getMsbD px =
      ((px + (64 - x)) % 64 < 8 && b.toNat.testBit (7 - (px + (64 - x)) % 64)) := by
  rw [band, BitVec.getMsbD_rotateRight_of_lt hx, Nat.mod_eq_of_lt hx]
  by_cases h : px < x
  · have e : (px + (64 - x)) % 64 = (64 + px - x) % 64 := by omega
    rw [if_pos h, e, getMsbD_ofNat_shiftLeft b (by omega)]
    simp only [hpx, decide_true, Bool.true_and]
  · have e : (px + (64 - x)) % 64 = px - x := by omega
    rw [if_neg h, e, getMsbD_ofNat_shiftLeft b (by omega)]
    simp only [hpx, decide_true, Bool.true_and]

/-- Draw one row of a sprite. -/
def drawRow (s : Screen) (x y : Nat) (b : UInt8) : Drawing where
  screen := ⟨s.rows.set (y % 32) (s.rows[y % 32] ^^^ band b x)⟩
  collision := s.rows[y % 32] &&& band b x != 0
  toggles := ((List.range width).filter fun px => (band b x).getMsbD px).map fun px =>
    ⟨px, y % 32, !(s.rows[y % 32].getMsbD px)⟩

/-- Drawing a row turns over the pixels of its band. -/
theorem pixel_drawRow (s : Screen) (x y : Nat) (b : UInt8) (px py : Nat) :
    (s.drawRow x y b).screen.pixel px py =
      (s.pixel px py ^^ (decide (py % 32 = y % 32) && (band b x).getMsbD (px % 64))) := by
  simp only [drawRow, pixel, Vector.getElem_set]
  by_cases h : y % 32 = py % 32
  · simp [h]
  · simp [h, Ne.symm h]

/-- Draw the rows of a sprite, each one row below the one before. -/
def drawRows (s : Screen) (x y : Nat) : List UInt8 → Drawing
  | [] => ⟨s, false, []⟩
  | b :: rest =>
    let first := s.drawRow x y b
    let others := first.screen.drawRows x (y + 1) rest
    ⟨others.screen, first.collision || others.collision, first.toggles ++ others.toggles⟩

/-- Draw a sprite with its upper left corner at a place, the place counted round the edges. -/
def draw (s : Screen) (x y : UInt8) (sprite : List UInt8) : Drawing :=
  s.drawRows (x.toNat % 64) (y.toNat % 32) sprite

end Screen

end Chip8
