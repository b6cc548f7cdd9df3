import Chip8.Instruction.Inverse
import Chip8.Proofs.Mirror
import Mathlib.Data.List.Nodup
import Mathlib.Data.Nat.Bitwise

/-!
# Drawing pixel by pixel

The screen draws a row of a sprite at once, with a rotated word of bits. Here is the same drawing
done pixel by pixel: the bits of a sprite are taken in order, and each one that is set turns over
its pixel.

* `Picture.blit` is the drawing pixel by pixel.
* `Blit.mem_visited` says that the pixels which a row visits are those of its band, and
  `Blit.foldl_turn` what becomes of the picture if each pixel is visited once.
* `Blit.drawRow_shows` and `Blit.drawRows_shows` compare the two drawings, row by row.
* `Machine.draw_exact` puts these together, with what the instruction for drawing does.
-/

namespace Chip8

/-! ## The drawing -/

/-- A pixel that a drawing has turned over, and the row of the sprite to which it belongs. -/
structure Turn where
  row : Nat
  toggle : Screen.Toggle
  deriving DecidableEq, Repr

/-- The order of the rows of a sprite, and in a row from the left. -/
def Turn.Before (t u : Turn) : Prop :=
  t.row < u.row ∨ t.row = u.row ∧ t.toggle.x < u.toggle.x

/-- What a drawing pixel by pixel has come to: the picture, whether a lit pixel was met, and the
pixels that were turned over, in the order in which they were. -/
structure Blit where
  picture : Picture
  collision : Bool := false
  turns : List Turn := []

namespace Blit

/-- Turn over a pixel. -/
def turn (b : Blit) (row : Nat) (x : Fin 64) (y : Fin 32) : Blit where
  picture := fun x' y' => if x' = x ∧ y' = y then !b.picture x y else b.picture x' y'
  collision := b.collision || b.picture x y
  turns := b.turns ++ [⟨row, x, y, !b.picture x y⟩]

/-- Whether a bit of a byte is set, the highest one having the number zero. -/
def bitSet (byte : UInt8) (c : Nat) : Bool :=
  byte &&& (0x80 >>> UInt8.ofNat c) ≠ 0

/-- Draw one row of a sprite, bit by bit. -/
def drawRow (b : Blit) (x y row : Nat) (byte : UInt8) : Blit :=
  (List.range 8).foldl
    (fun b c =>
      if bitSet byte c then b.turn row (Fin.ofNat 64 (x + c)) (Fin.ofNat 32 (y + row)) else b)
    b

/-- Draw the rows of a sprite from the one with the number `row` on. -/
def drawRows (b : Blit) (x y row : Nat) : List UInt8 → Blit
  | [] => b
  | byte :: rest => (b.drawRow x y row byte).drawRows x y (row + 1) rest

end Blit

/-- Draw a sprite with its upper left corner at a place, the place counted round the edges. -/
def Picture.blit (p : Picture) (x y : UInt8) (sprite : List UInt8) : Blit :=
  Blit.drawRows { picture := p } (x.toNat % 64) (y.toNat % 32) 0 sprite

namespace Blit

/-! ## One row -/

theorem bitSet_eq_testBit (byte : UInt8) {c : Nat} (hc : c < 8) :
    bitSet byte c = byte.toNat.testBit (7 - c) := by
  have hmask : (0x80 >>> UInt8.ofNat c : UInt8).toNat = 2 ^ (7 - c) := by
    revert c
    decide
  rw [bitSet, Bool.eq_iff_iff, decide_eq_true_eq, ne_eq, ← UInt8.toNat_inj, UInt8.toNat_and, hmask,
    Nat.and_two_pow]
  cases byte.toNat.testBit (7 - c) <;> simp

/-- The columns that a row of a sprite visits, in the order of its bits. -/
def visited (byte : UInt8) (x : Nat) : List (Fin 64) :=
  ((List.range 8).filter (bitSet byte)).map fun c => Fin.ofNat 64 (x + c)

theorem drawRow_eq_foldl (b : Blit) (x y row : Nat) (byte : UInt8) :
    b.drawRow x y row byte =
      (visited byte x).foldl (fun b px => b.turn row px (Fin.ofNat 32 (y + row))) b := by
  rw [visited, List.foldl_map, List.foldl_filter]
  rfl

/-- **A row visits the pixels of its band.** -/
theorem mem_visited {byte : UInt8} {x : Nat} (hx : x < 64) {px : Fin 64} :
    px ∈ visited byte x ↔ (Screen.band byte x).getMsbD px = true := by
  have hpx := px.isLt
  rw [Screen.getMsbD_band byte hx hpx, Bool.and_eq_true, decide_eq_true_eq]
  simp only [visited, List.mem_map, List.mem_filter, List.mem_range, Fin.ext_iff, Fin.val_ofNat]
  constructor
  · rintro ⟨c, ⟨hc, hset⟩, heq⟩
    have hback : (px.val + (64 - x)) % 64 = c := by omega
    rw [hback, ← bitSet_eq_testBit byte hc]
    exact ⟨hc, hset⟩
  · rintro ⟨hc, hset⟩
    exact ⟨_, ⟨hc, (bitSet_eq_testBit byte hc).trans hset⟩, by omega⟩

theorem nodup_visited (byte : UInt8) (x : Nat) : ((visited byte x).map Fin.val).Nodup := by
  rw [visited, List.map_map]
  refine List.Nodup.map_on (fun c hc c' hc' heq => ?_) (List.nodup_range.filter _)
  rw [List.mem_filter, List.mem_range] at hc hc'
  simp only [Function.comp, Fin.val_ofNat] at heq
  omega

theorem perm_visited (byte : UInt8) {x : Nat} (hx : x < 64) :
    ((visited byte x).map Fin.val).Perm (Picture.columns byte x) := by
  apply (List.perm_ext_iff_of_nodup (nodup_visited byte x) (Picture.nodup_columns byte x)).2
  intro px
  rw [Picture.mem_columns, List.mem_map]
  constructor
  · rintro ⟨px, hmem, rfl⟩
    exact ⟨px.isLt, (mem_visited hx).1 hmem⟩
  · rintro ⟨hlt, hband⟩
    exact ⟨⟨px, hlt⟩, (mem_visited hx).2 hband, rfl⟩

/-- **Pixels of a row that are each turned over once** keep their colour until it is their turn. -/
theorem foldl_turn {columns : List (Fin 64)} (hd : columns.Nodup) (b : Blit) (row : Nat)
    (y : Fin 32) :
    columns.foldl (fun b px => b.turn row px y) b =
      { picture := fun x' y' => b.picture x' y' ^^ (y' == y && columns.contains x')
        collision := b.collision || columns.any fun px => b.picture px y
        turns := b.turns ++ columns.map fun px => ⟨row, px, y, !b.picture px y⟩ } := by
  induction columns generalizing b with
  | nil => simp
  | cons c columns ih =>
    obtain ⟨hc, hd⟩ := List.nodup_cons.1 hd
    have hsame : ∀ px ∈ columns, (b.turn row c y).picture px y = b.picture px y := by
      intro px hpx
      have hne : px ≠ c := fun h => hc (h ▸ hpx)
      simp [turn, hne]
    rw [List.foldl_cons, ih hd]
    congr 1
    · ext x' y'
      by_cases hx : x' = c
      · by_cases hy : y' = y
        · simp [turn, hx, hy, hc]
        · simp [turn, hx, hy, beq_eq_false_iff_ne.2 hy]
      · simp [turn, hx]
    · have hany : (columns.any fun px => (b.turn row c y).picture px y) =
          columns.any fun px => b.picture px y := by
        rw [Bool.eq_iff_iff, List.any_eq_true, List.any_eq_true]
        exact exists_congr fun px => and_congr_right fun hpx => by rw [hsame px hpx]
      rw [hany, List.any_cons, ← Bool.or_assoc]
      rfl
    · rw [List.map_congr_left fun px hpx => by rw [hsame px hpx], List.map_cons,
        ← List.singleton_append, ← List.append_assoc]
      rfl

/-! ## The two drawings -/

theorem and_bne_zero_iff (v w : BitVec 64) :
    (v &&& w != 0) = true ↔ ∃ k, k < 64 ∧ w.getMsbD k = true ∧ v.getMsbD k = true := by
  rw [bne_iff_ne]
  constructor
  · intro hne
    by_contra hnone
    apply hne
    refine BitVec.eq_of_getMsbD_eq fun k hk => ?_
    rw [BitVec.getMsbD_and, BitVec.ofNat_eq_ofNat, BitVec.getMsbD_zero, Bool.and_eq_false_iff]
    by_contra hboth
    simp only [not_or, Bool.not_eq_false] at hboth
    exact hnone ⟨k, hk, hboth.2, hboth.1⟩
  · rintro ⟨k, -, hw, hv⟩ heq
    have hbit := congrArg (fun u => u.getMsbD k) heq
    simp [hv, hw] at hbit

theorem collision_drawRow (s : Screen) (x y : Nat) (byte : UInt8) :
    (s.drawRow x y byte).collision = (Picture.columns byte x).any fun px => s.pixel px y := by
  rw [Bool.eq_iff_iff, List.any_eq_true]
  refine (and_bne_zero_iff _ _).trans (exists_congr fun px => ?_)
  rw [Picture.mem_columns, and_assoc]
  refine and_congr_right fun hpx => and_congr_right fun _ => ?_
  rw [Screen.pixel, Nat.mod_eq_of_lt hpx]

variable {b : Blit} {s : Screen} {x : Nat}

/-- **A row drawn bit by bit is the row of the screen**, and the same pixels are turned over. -/
theorem drawRow_shows (h : b.picture.Shows s) (hx : x < 64) (y row : Nat) (byte : UInt8) :
    let blit := b.drawRow x y row byte
    let drawing := s.drawRow x (y + row) byte
    blit.picture.Shows drawing.screen ∧
      blit.collision = (b.collision || drawing.collision) ∧
      ∃ new, blit.turns = b.turns ++ new ∧ (drawing.toggles.map (Turn.mk row)).Perm new := by
  intro blit drawing
  have hrow : ∀ px : Fin 64, b.picture px (Fin.ofNat 32 (y + row)) = s.pixel px (y + row) := by
    intro px
    rw [h px, Fin.val_ofNat]
    simp [Screen.pixel]
  have hblit : blit = _ :=
    (drawRow_eq_foldl b x y row byte).trans
      (foldl_turn (List.Nodup.of_map _ (nodup_visited byte x)) b row _)
  rw [hblit]
  refine ⟨fun px py => ?_, ?_, _, rfl, ?_⟩
  · have hy : (py == Fin.ofNat 32 (y + row)) = decide (py.val = (y + row) % 32) := by
      rw [Bool.eq_iff_iff, beq_iff_eq, decide_eq_true_eq, Fin.ext_iff, Fin.val_ofNat]
    have hcontains : (visited byte x).contains px = (Screen.band byte x).getMsbD px := by
      rw [Bool.eq_iff_iff, List.contains_iff_mem, mem_visited hx]
    simp only [drawing, Screen.pixel_drawRow, Nat.mod_eq_of_lt px.isLt, Nat.mod_eq_of_lt py.isLt,
      h px py, hy, hcontains]
  · simp only [drawing, hrow, collision_drawRow, ← (perm_visited byte hx).any_eq, List.any_map]
    rfl
  · have hperm := ((perm_visited byte hx).symm.map fun px =>
      Turn.mk row ⟨px, (y + row) % 32, !s.pixel px (y + row)⟩)
    simp only [drawing, hrow, Picture.toggles_drawRow, List.map_map]
    rwa [List.map_map] at hperm

theorem pairwise_drawRow (s : Screen) (x y row : Nat) (byte : UInt8) :
    ((s.drawRow x y byte).toggles.map (Turn.mk row)).Pairwise Turn.Before := by
  rw [Picture.toggles_drawRow, List.map_map, List.pairwise_map]
  exact (List.pairwise_lt_range.filter _).imp fun hlt => .inr ⟨rfl, hlt⟩

/-- **A sprite drawn bit by bit is the sprite of the screen**, by induction on its rows. -/
theorem drawRows_shows (h : b.picture.Shows s) (hx : x < 64) (y row : Nat) (sprite : List UInt8) :
    let blit := b.drawRows x y row sprite
    let drawing := s.drawRows x (y + row) sprite
    blit.picture.Shows drawing.screen ∧
      blit.collision = (b.collision || drawing.collision) ∧
      ∃ new sorted : List Turn, blit.turns = b.turns ++ new ∧
        drawing.toggles = sorted.map Turn.toggle ∧ sorted.Perm new ∧
        sorted.Pairwise Turn.Before ∧ ∀ t ∈ sorted, row ≤ t.row := by
  induction sprite generalizing b s row with
  | nil => exact ⟨h, (Bool.or_false _).symm, [], [], by simp [drawRows, Screen.drawRows]⟩
  | cons byte rest ih =>
    obtain ⟨hfirst, hcollision, new, hnew, hperm⟩ := drawRow_shows h hx y row byte
    obtain ⟨hshows, hcollisions, news, sorted, hnews, htoggles, hperms, hpairwise, hle⟩ :=
      ih hfirst (row + 1)
    have hrows : ∀ t ∈ (s.drawRow x (y + row) byte).toggles.map (Turn.mk row), t.row = row := by
      intro t ht
      obtain ⟨_, _, rfl⟩ := List.mem_map.1 ht
      rfl
    refine ⟨hshows, ?_, new ++ news, _ ++ sorted, ?_, ?_, hperm.append hperms, ?_, ?_⟩
    · rw [Screen.drawRows, ← Bool.or_assoc, ← hcollision]
      exact hcollisions
    · rw [← List.append_assoc, ← hnew]
      exact hnews
    · rw [List.map_append, ← htoggles, List.map_map]
      simp [Screen.drawRows, Function.comp_def, Nat.add_assoc]
    · refine List.pairwise_append.2 ⟨pairwise_drawRow _ _ _ _ _, hpairwise, fun t ht u hu => ?_⟩
      exact .inl (by rw [hrows t ht]; exact hle u hu)
    · intro t ht
      rcases List.mem_append.1 ht with ht | ht
      · exact (hrows t ht).ge
      · exact Nat.le_of_succ_le (hle t ht)

end Blit

/-- A lit pixel was met just if a pixel has gone dark. -/
theorem Screen.collision_drawRows (s : Screen) (x y : Nat) (sprite : List UInt8) :
    (s.drawRows x y sprite).collision = true ↔
      ∃ t ∈ (s.drawRows x y sprite).toggles, t.lit = false := by
  induction sprite generalizing s y with
  | nil => simp [drawRows]
  | cons byte rest ih =>
    simp only [drawRows, Bool.or_eq_true, ih, List.mem_append, or_and_right, exists_or,
      Blit.collision_drawRow, Picture.toggles_drawRow, List.any_eq_true, List.mem_map]
    refine or_congr_left ?_
    constructor
    · rintro ⟨px, hpx, hlit⟩
      exact ⟨_, ⟨px, hpx, rfl⟩, by simp [hlit]⟩
    · rintro ⟨_, ⟨px, hpx, rfl⟩, hlit⟩
      exact ⟨px, hpx, by simpa using hlit⟩

/-! ## The instruction -/

/-- **Drawing is exact.** For every screen, every place and every sprite, drawing leaves the pixels
that the drawing pixel by pixel leaves, and there is a collision in both or in neither. The events
tell of the same pixels being turned over, row by row and each row from the left, and there is a
collision just if one of them goes dark.

A machine that runs draws the bytes of memory from the index on, at the place that the two registers
have named before. Then the flag register says whether there was a collision, and nothing else is
changed but the screen, the program counter and the count of instructions. -/
theorem Machine.draw_exact :
    (∀ (s : Screen) (x y : UInt8) (sprite : List UInt8),
      let blit := Picture.blit (fun px py => s.pixel px py) x y sprite
      let drawing := s.draw x y sprite
      (∀ (px : Fin 64) (py : Fin 32), drawing.screen.pixel px py = blit.picture px py) ∧
      drawing.collision = blit.collision ∧
      (∃ turns : List Turn, drawing.toggles = turns.map Turn.toggle ∧ turns.Perm blit.turns ∧
        turns.Pairwise Turn.Before) ∧
      (drawing.collision = true ↔ ∃ t ∈ drawing.toggles, t.lit = false)) ∧
    ∀ (m : Machine) (keypad : Keypad) (dice : UInt8) (x y n : Fin 16),
      m.IsActive → m.fetch = (Instr.draw x y n).word →
      let sprite := (List.range n).map fun k => m.memory.read ((m.index.toNat + k) % 4096)
      let drawing := m.screen.draw (m.register x) (m.register y) sprite
      m.step keypad dice =
        { answer := .ok ()
          machine :=
            { m with
              screen := drawing.screen
              registers := m.registers.set 0xf (if drawing.collision then 1 else 0)
              pc := Word.wrap (m.pc.toNat + 2)
              cycle := m.cycle + 1 }
          events := drawing.toggles.map .pixel
          trace := m.nextLine } := by
  refine ⟨fun s x y sprite => ?_, fun m keypad dice x y n h hw => ?_⟩
  · intro blit drawing
    have hx : x.toNat % 64 < 64 := Nat.mod_lt _ (by decide)
    obtain ⟨hshows, hcollision, new, sorted, hnew, htoggles, hperm, hpairwise, -⟩ :=
      Blit.drawRows_shows (b := { picture := fun px py => s.pixel px py }) (fun _ _ => rfl) hx
        (y.toNat % 32) 0 sprite
    have hturns : blit.turns = new := hnew
    refine ⟨fun px py => (hshows px py).symm, hcollision.symm, ⟨sorted, htoggles, ?_, hpairwise⟩,
      s.collision_drawRows _ _ _⟩
    rwa [hturns]
  · have hsprite : (List.range n).map (fun k => m.memory.read ((m.index.toNat + k) % 4096)) =
        m.memory.bytes m.index.toNat n :=
      List.map_congr_left fun k _ => m.memory.read_mod _
    rw [hsprite, step_of_execute h (Instruction.ofWord?_eq_some_iff.2 hw) rfl]
    rfl

end Chip8
