import Chip8.Proofs.Blit
import Mathlib.Data.Nat.Bits

/-!
# Drawing as the addition of pictures

Drawing turns over the pixels that the set bits of a sprite cover, each of them as often as it is
covered: a sprite that is taller than the screen comes back to its own rows. So a drawing adds a
picture to the screen, and two of the same cancel. What several drawings leave does not depend on
their order, although the collisions do that they report on the way.

* `Screen.places` lists the pixels that a sprite covers. They are the ones of the events
  (`place_drawRows`), whatever is on the screen, and a pixel that is listed an odd number of times
  is another one afterwards (`pixel_drawRows`).
* `Screen.nodup_places` says that a sprite which is no taller than the screen covers no pixel twice,
  and `Screen.toggles_drawRows` what the events are then.
* `Screen.draw_group_action` is the theorem about drawings in any order, and about the same one
  twice.
-/

namespace Chip8.Screen

/-! ## Several drawings -/

/-- A sprite and the place of its upper left corner. -/
structure Stamp where
  x : UInt8
  y : UInt8
  sprite : List UInt8
  deriving DecidableEq, Repr

/-- The screen after some drawings, one after the other. -/
def drawAll (s : Screen) (stamps : List Stamp) : Screen :=
  stamps.foldl (fun s d => (s.draw d.x d.y d.sprite).screen) s

/-- A set bit of a sprite with its upper left corner at a place lies over a pixel. -/
def Covers (x y : Nat) (sprite : List UInt8) (px py : Nat) : Prop :=
  ∃ row byte c, sprite[row]? = some byte ∧ c < 8 ∧ Blit.bitSet byte c = true ∧
    px = (x + c) % 64 ∧ py = (y + row) % 32

/-- The pixel that an event names. -/
def Toggle.place (t : Toggle) : Nat × Nat := (t.x, t.y)

/-- The event on the same pixel with the other colour. -/
def Toggle.inverted (t : Toggle) : Toggle := { t with lit := !t.lit }

/-! ## The pixels that are covered -/

/-- The pixels that a row of a sprite covers, from the left. -/
def rowPlaces (byte : UInt8) (x y : Nat) : List (Nat × Nat) :=
  (Picture.columns byte x).map (·, y % 32)

/-- The pixels that a sprite covers, row by row. -/
def places (x y : Nat) : List UInt8 → List (Nat × Nat)
  | [] => []
  | byte :: rest => rowPlaces byte x y ++ places x (y + 1) rest

theorem mem_rowPlaces {byte : UInt8} {x : Nat} (hx : x < 64) {y px py : Nat} :
    (px, py) ∈ rowPlaces byte x y ↔
      ∃ c < 8, Blit.bitSet byte c = true ∧ px = (x + c) % 64 ∧ py = y % 32 := by
  simp only [rowPlaces, ← (Blit.perm_visited byte hx).mem_iff, Blit.visited, List.map_map,
    List.mem_map, List.mem_filter, List.mem_range, Function.comp, Fin.val_ofNat, Prod.mk.injEq]
  constructor
  · rintro ⟨_, ⟨c, ⟨hc, hset⟩, rfl⟩, rfl, rfl⟩
    exact ⟨c, hc, hset, rfl, rfl⟩
  · rintro ⟨c, hc, hset, rfl, rfl⟩
    exact ⟨_, ⟨c, ⟨hc, hset⟩, rfl⟩, rfl, rfl⟩

theorem mem_places {x : Nat} (hx : x < 64) {y : Nat} {sprite : List UInt8} {px py : Nat} :
    (px, py) ∈ places x y sprite ↔ Covers x y sprite px py := by
  induction sprite generalizing y with
  | nil => simp [places, Covers]
  | cons byte rest ih =>
    rw [places, List.mem_append, ih, mem_rowPlaces hx]
    constructor
    · rintro (⟨c, hc, hset, hpx, hpy⟩ | ⟨row, byte', c, hbyte, hc, hset, hpx, hpy⟩)
      · exact ⟨0, byte, c, rfl, hc, hset, hpx, hpy⟩
      · exact ⟨row + 1, byte', c, hbyte, hc, hset, hpx, by omega⟩
    · rintro ⟨_ | row, byte', c, hbyte, hc, hset, hpx, hpy⟩
      · obtain rfl : byte = byte' := Option.some.inj hbyte
        exact .inl ⟨c, hc, hset, hpx, hpy⟩
      · exact .inr ⟨row, byte', c, hbyte, hc, hset, hpx, by omega⟩

theorem mod_of_mem_places {x : Nat} (hx : x < 64) {y : Nat} {sprite : List UInt8} {p : Nat × Nat}
    (hp : p ∈ places x y sprite) : (p.1 % 64, p.2 % 32) = p := by
  obtain ⟨_, _, _, -, -, -, hpx, hpy⟩ := (mem_places hx).1 hp
  rw [hpx, hpy, Nat.mod_mod, Nat.mod_mod, ← hpx, ← hpy]

/-- The events of a drawing name the pixels that the sprite covers, whatever is on the screen. -/
theorem place_drawRows (s : Screen) (x y : Nat) (sprite : List UInt8) :
    (s.drawRows x y sprite).toggles.map Toggle.place = places x y sprite := by
  induction sprite generalizing s y with
  | nil => rfl
  | cons byte rest ih =>
    simp [drawRows, places, rowPlaces, ih, Picture.toggles_drawRow, Toggle.place,
      Function.comp_def]

/-! ## The colours -/

theorem nodup_rowPlaces (byte : UInt8) (x y : Nat) : (rowPlaces byte x y).Nodup :=
  (Picture.nodup_columns byte x).map fun _ _ heq => congrArg Prod.fst heq

theorem pixel_drawRow_places (s : Screen) (x y : Nat) (byte : UInt8) (px py : Nat) :
    (s.drawRow x y byte).screen.pixel px py =
      (s.pixel px py ^^ decide ((px % 64, py % 32) ∈ rowPlaces byte x y)) := by
  have hmem : (px % 64, py % 32) ∈ rowPlaces byte x y ↔
      py % 32 = y % 32 ∧ (band byte x).getMsbD (px % 64) = true := by
    simp only [rowPlaces, List.mem_map, Picture.mem_columns, Prod.mk.injEq]
    grind
  simp [pixel_drawRow, hmem]

/-- **A pixel changes its colour as often as it is covered.** -/
theorem pixel_drawRows (s : Screen) (x y : Nat) (sprite : List UInt8) (px py : Nat) :
    (s.drawRows x y sprite).screen.pixel px py =
      (s.pixel px py ^^ ((places x y sprite).count (px % 64, py % 32)).bodd) := by
  induction sprite generalizing s y with
  | nil => simp [drawRows, places]
  | cons byte rest ih =>
    have hrow : ((rowPlaces byte x y).count (px % 64, py % 32)).bodd =
        decide ((px % 64, py % 32) ∈ rowPlaces byte x y) := by
      rw [(nodup_rowPlaces byte x y).count]
      split <;> simp [*]
    rw [drawRows, ih, pixel_drawRow_places, places, List.count_append, Nat.bodd_add, hrow,
      Bool.xor_assoc]

/-! ## Sprites that are no taller than the screen -/

/-- **Each pixel is covered once** if the rows do not come back to where they began. -/
theorem nodup_places {x : Nat} (hx : x < 64) (y : Nat) {sprite : List UInt8}
    (h : sprite.length ≤ 32) : (places x y sprite).Nodup := by
  induction sprite generalizing y with
  | nil => exact List.nodup_nil
  | cons byte rest ih =>
    rw [List.length_cons] at h
    refine List.nodup_append.2 ⟨nodup_rowPlaces byte x y, ih (y + 1) (by omega), ?_⟩
    rintro ⟨px, py⟩ hrow _ hrest rfl
    obtain ⟨_, -, -, -, hy⟩ := (mem_rowPlaces hx).1 hrow
    obtain ⟨row, _, _, hbyte, -, -, -, hpy⟩ := (mem_places hx).1 hrest
    have hlt : row < rest.length := (List.getElem?_eq_some_iff.1 hbyte).1
    omega

/-- The events of such a sprite give the pixels that are covered the colours that they did not
have. -/
theorem toggles_drawRows (s : Screen) {x : Nat} (hx : x < 64) (y : Nat) {sprite : List UInt8}
    (h : sprite.length ≤ 32) :
    (s.drawRows x y sprite).toggles =
      (places x y sprite).map fun p => ⟨p.1, p.2, !s.pixel p.1 p.2⟩ := by
  induction sprite generalizing s y with
  | nil => rfl
  | cons byte rest ih =>
    have hdisjoint := (List.nodup_append.1 (nodup_places hx y h)).2.2
    -- the first row leaves the pixels of the others as they were
    have hrest : ∀ p ∈ places x (y + 1) rest,
        (s.drawRow x y byte).screen.pixel p.1 p.2 = s.pixel p.1 p.2 := by
      intro p hp
      have hnot : p ∉ rowPlaces byte x y := fun hrow => hdisjoint p hrow p hp rfl
      rw [pixel_drawRow_places, mod_of_mem_places hx hp, decide_eq_false hnot, Bool.xor_false]
    rw [List.length_cons] at h
    rw [drawRows, places, List.map_append, ih _ (y + 1) (by omega), Picture.toggles_drawRow]
    refine congrArg₂ (· ++ ·) ?_ (List.map_congr_left fun p hp => by rw [hrest p hp])
    simp [rowPlaces, pixel, Function.comp_def]

theorem toggles_drawRows_twice (s : Screen) {x : Nat} (hx : x < 64) (y : Nat) {sprite : List UInt8}
    (h : sprite.length ≤ 32) :
    ((s.drawRows x y sprite).screen.drawRows x y sprite).toggles =
      (places x y sprite).map fun p => ⟨p.1, p.2, s.pixel p.1 p.2⟩ := by
  rw [toggles_drawRows _ hx y h]
  refine List.map_congr_left fun p hp => ?_
  have hcount := List.count_eq_one_of_mem (nodup_places hx y h) hp
  simp [pixel_drawRows, mod_of_mem_places hx hp, hcount]

/-! ## Collisions -/

theorem covers_mod (x y : Nat) (sprite : List UInt8) (px py : Nat) :
    Covers (x % 64) (y % 32) sprite px py ↔ Covers x y sprite px py := by
  simp only [Covers, Nat.mod_add_mod]

theorem exists_covers {x y : Nat} {sprite : List UInt8} :
    (∃ px py, Covers x y sprite px py) ↔ ∃ byte ∈ sprite, ∃ c < 8, Blit.bitSet byte c = true := by
  constructor
  · rintro ⟨_, _, row, byte, c, hbyte, hc, hset, -, -⟩
    exact ⟨byte, List.mem_of_getElem? hbyte, c, hc, hset⟩
  · rintro ⟨byte, hbyte, c, hc, hset⟩
    obtain ⟨row, hrow⟩ := List.mem_iff_getElem?.1 hbyte
    exact ⟨_, _, row, byte, c, hrow, hc, hset, rfl, rfl⟩

/-- If the events of a drawing are known, then there is a collision just if one of them is dark. -/
theorem collision_drawRows_iff {s : Screen} {x : Nat} (hx : x < 64) {y : Nat} {sprite : List UInt8}
    (colour : Nat → Nat → Bool)
    (h : (s.drawRows x y sprite).toggles =
      (places x y sprite).map fun p => ⟨p.1, p.2, colour p.1 p.2⟩) :
    (s.drawRows x y sprite).collision = true ↔
      ∃ px py, Covers x y sprite px py ∧ colour px py = false := by
  rw [collision_drawRows, h]
  simp [mem_places hx]

/-! ## Drawings in any order, and the same one twice -/

/-- A drawing adds to the screen what it would draw on the dark screen. -/
theorem pixel_draw (s : Screen) (x y : UInt8) (sprite : List UInt8) (px py : Nat) :
    (s.draw x y sprite).screen.pixel px py =
      (s.pixel px py ^^ (blank.draw x y sprite).screen.pixel px py) := by
  simp [draw, pixel_drawRows]

theorem draw_draw_comm (s : Screen) (d e : Stamp) :
    ((s.draw d.x d.y d.sprite).screen.draw e.x e.y e.sprite).screen =
      ((s.draw e.x e.y e.sprite).screen.draw d.x d.y d.sprite).screen := by
  ext px py
  rw [pixel_draw (s.draw d.x d.y d.sprite).screen, pixel_draw (s.draw e.x e.y e.sprite).screen,
    pixel_draw s d.x, pixel_draw s e.x, Bool.xor_right_comm]

/-- **The order of the drawings makes no difference** to the screen that they leave. -/
theorem drawAll_perm (s : Screen) {stamps stamps' : List Stamp} (h : stamps.Perm stamps') :
    s.drawAll stamps = s.drawAll stamps' :=
  h.foldl_eq' (fun d _ e _ s => draw_draw_comm s d e) s

/-- **The same drawing twice** is none. -/
theorem draw_draw_self (s : Screen) (x y : UInt8) (sprite : List UInt8) :
    ((s.draw x y sprite).screen.draw x y sprite).screen = s := by
  ext px py
  rw [pixel_draw, pixel_draw s, Bool.xor_assoc, Bool.xor_self, Bool.xor_false]

/-- **Drawing is an action of a group.** A drawing adds to the screen, pixel by pixel, what it would
draw on the dark screen. So the screen after any number of drawings, of sprites of any height, does
not depend on their order, and the same drawing once more brings back the screen, with events on the
same pixels as before.

If the sprite is no taller than the screen, then the second drawing has the events of the first with
the other colours. It reports a collision just if a pixel that is covered was dark at first, and one
of the two drawings reports one just if the sprite has a set bit. -/
theorem draw_group_action (s : Screen) :
    (∀ x y sprite px py, (s.draw x y sprite).screen.pixel px py =
      (s.pixel px py ^^ (blank.draw x y sprite).screen.pixel px py)) ∧
    (∀ stamps stamps' : List Stamp, stamps.Perm stamps' → s.drawAll stamps = s.drawAll stamps') ∧
    ∀ x y sprite,
      let first := s.draw x y sprite
      let second := first.screen.draw x y sprite
      second.screen = s ∧
      second.toggles.map Toggle.place = first.toggles.map Toggle.place ∧
      (sprite.length ≤ 32 →
        second.toggles = first.toggles.map Toggle.inverted ∧
        (second.collision = true ↔
          ∃ px py, Covers x.toNat y.toNat sprite px py ∧ s.pixel px py = false) ∧
        (first.collision = true ∨ second.collision = true ↔
          ∃ byte ∈ sprite, ∃ c < 8, Blit.bitSet byte c = true)) := by
  refine ⟨s.pixel_draw, fun _ _ => s.drawAll_perm, fun x y sprite => ?_⟩
  intro first second
  refine ⟨s.draw_draw_self x y sprite, ?_, fun hlen => ?_⟩
  · exact (place_drawRows _ _ _ _).trans (place_drawRows _ _ _ _).symm
  · have hx : x.toNat % 64 < 64 := Nat.mod_lt _ (by decide)
    have hfirst : first.toggles = _ := toggles_drawRows s hx (y.toNat % 32) hlen
    have hsecond : second.toggles = _ := toggles_drawRows_twice s hx (y.toNat % 32) hlen
    have hlit : first.collision = true ↔ _ :=
      collision_drawRows_iff hx (fun px py => !s.pixel px py) hfirst
    have hdark : second.collision = true ↔ _ := collision_drawRows_iff hx s.pixel hsecond
    simp only [covers_mod, Bool.not_eq_false'] at hlit hdark
    refine ⟨?_, hdark, ?_⟩
    · rw [hfirst, hsecond, List.map_map]
      simp [Toggle.inverted]
    · -- a pixel that is covered was either lit or dark
      rw [hlit, hdark, ← exists_covers (x := x.toNat) (y := y.toNat)]
      simp only [← exists_or, ← and_or_left, Bool.eq_true_or_eq_false_self, and_true]

end Chip8.Screen
