import Chip8.Proofs.Listener

/-!
# The events mirror the screen

Somebody who sees only the events of a machine and keeps a picture of their own, dark at first, has
the screen before them at all times. `Shows` says that a picture is the one on the screen;
`Shows.drawRows` follows the pixels of a sprite, `Shows.of_change` every change of a machine, and
`mirror_run` every run. No event is superfluous: the pixel that it names was different before.
-/

namespace Chip8

/-- A picture of the size of the screen. -/
abbrev Picture := Fin 64 → Fin 32 → Bool

namespace Picture

/-- The dark picture. -/
def dark : Picture := fun _ _ => false

/-- The picture after an event. -/
def see (p : Picture) : Event → Picture
  | .pixel t => fun x y => if x.val = t.x ∧ y.val = t.y then t.lit else p x y
  | .cleared => dark
  | .toneStart | .toneStop => p

/-- An event on a pixel turns over a pixel of the picture. -/
def TurnsOver (p : Picture) : Event → Prop
  | .pixel t => ∃ (x : Fin 64) (y : Fin 32), t.x = x.val ∧ t.y = y.val ∧ p x y = !t.lit
  | _ => True

/-- The picture is the one on a screen. -/
def Shows (p : Picture) (s : Screen) : Prop :=
  ∀ (x : Fin 64) (y : Fin 32), p x y = s.pixel x y

theorem shows_dark : dark.Shows .blank := by
  intro x y
  rw [Screen.pixel_blank]
  rfl

/-! ## Drawing -/

/-- The pixels of a row at some columns, each different ones, are turned over one by one: those
still to come keep their colour meanwhile. -/
theorem see_row (y : Fin 32) (colour : Nat → Bool) {columns : List Nat} (hd : columns.Nodup)
    (hlt : ∀ x ∈ columns, x < 64) {p : Picture}
    (hp : ∀ x : Fin 64, x.val ∈ columns → p x y = colour x) :
    Fits see TurnsOver p (columns.map fun x => .pixel ⟨x, y, !colour x⟩) ∧
      ∀ (x : Fin 64) (y' : Fin 32),
        (columns.map fun x => Event.pixel ⟨x, y, !colour x⟩).foldl see p x y' =
          if y' = y ∧ x.val ∈ columns then !colour x else p x y' := by
  induction columns generalizing p with
  | nil =>
    refine ⟨trivial, fun x y' => ?_⟩
    rw [if_neg fun h => List.not_mem_nil h.2]
    rfl
  | cons c columns ih =>
    obtain ⟨hc, hd⟩ := List.nodup_cons.1 hd
    have hc64 : c < 64 := hlt c List.mem_cons_self
    have hrest : ∀ x : Fin 64, x.val ∈ columns →
        p.see (.pixel ⟨c, y, !colour c⟩) x y = colour x := by
      intro x hx
      have hne : x.val ≠ c := fun h => hc (h ▸ hx)
      show (if x.val = c ∧ y.val = y.val then !colour c else p x y) = colour x
      rw [if_neg fun h => hne h.1]
      exact hp x (List.mem_cons_of_mem _ hx)
    obtain ⟨hfits, hfold⟩ := ih hd (fun x hx => hlt x (List.mem_cons_of_mem _ hx)) hrest
    refine ⟨⟨⟨⟨c, hc64⟩, y, rfl, rfl, ?_⟩, hfits⟩, fun x y' => ?_⟩
    · rw [hp ⟨c, hc64⟩ List.mem_cons_self, Bool.not_not]
    · rw [List.map_cons, List.foldl_cons, hfold]
      by_cases hx : x.val = c
      · have hnot : ¬(y' = y ∧ x.val ∈ columns) := fun h => hc (hx ▸ h.2)
        by_cases hy : y' = y
        · simp [see, hx, hy, hc]
        · simp [see, hx, hy, Fin.val_inj]
      · simp [see, hx]

/-- The columns that a row of a sprite covers. -/
def columns (b : UInt8) (x : Nat) : List Nat :=
  (List.range Screen.width).filter fun px => (Screen.band b x).getMsbD px

theorem mem_columns {b : UInt8} {x px : Nat} :
    px ∈ columns b x ↔ px < 64 ∧ (Screen.band b x).getMsbD px = true := by
  rw [columns, List.mem_filter, List.mem_range]
  rfl

theorem nodup_columns (b : UInt8) (x : Nat) : (columns b x).Nodup :=
  List.nodup_range.filter _

/-- The row is told of from the left, with the colours that it did not have. -/
theorem toggles_drawRow (s : Screen) (x y : Nat) (b : UInt8) :
    (s.drawRow x y b).toggles = (columns b x).map fun px => ⟨px, y % 32, !s.pixel px y⟩ := by
  refine List.map_congr_left fun px hpx => ?_
  rw [Screen.pixel, Nat.mod_eq_of_lt (mem_columns.1 hpx).1]

theorem Shows.drawRow {p : Picture} {s : Screen} (h : p.Shows s) (x y : Nat) (b : UInt8) :
    Fits see TurnsOver p ((s.drawRow x y b).toggles.map .pixel) ∧
      Shows (((s.drawRow x y b).toggles.map .pixel).foldl see p) (s.drawRow x y b).screen := by
  have hy : y % 32 < 32 := Nat.mod_lt _ (by decide)
  have hrow : ∀ px, s.pixel px (y % 32) = s.pixel px y := by
    intro px
    simp only [Screen.pixel, Nat.mod_mod]
  obtain ⟨hfits, hfold⟩ :=
    see_row ⟨y % 32, hy⟩ (fun px => s.pixel px y) (nodup_columns b x)
      (fun px hpx => (mem_columns.1 hpx).1) (p := p)
      fun px _ => (h px ⟨y % 32, hy⟩).trans (hrow px)
  simp only [toggles_drawRow, List.map_map, Function.comp_def]
  refine ⟨hfits, fun px py => ?_⟩
  have hmem : px.val ∈ columns b x ↔ (Screen.band b x).getMsbD px = true :=
    mem_columns.trans (and_iff_right px.isLt)
  rw [hfold, Screen.pixel_drawRow, Nat.mod_eq_of_lt px.isLt, Nat.mod_eq_of_lt py.isLt, h px py]
  by_cases hpy : py.val = y % 32
  · obtain rfl : py = ⟨y % 32, hy⟩ := Fin.ext hpy
    by_cases hb : (Screen.band b x).getMsbD px = true
    · simp [hmem, hb, hrow]
    · simp [hmem, hb]
  · have hne : py ≠ ⟨y % 32, hy⟩ := fun e => hpy (congrArg Fin.val e)
    simp [hne, hpy]

theorem Shows.drawRows {p : Picture} {s : Screen} (h : p.Shows s) (x y : Nat)
    (sprite : List UInt8) :
    Fits see TurnsOver p ((s.drawRows x y sprite).toggles.map .pixel) ∧
      Shows (((s.drawRows x y sprite).toggles.map .pixel).foldl see p)
        (s.drawRows x y sprite).screen := by
  induction sprite generalizing p s y with
  | nil => exact ⟨trivial, h⟩
  | cons b rest ih =>
    obtain ⟨hfirst, hshows⟩ := h.drawRow x y b
    obtain ⟨hrest, hend⟩ := ih hshows (y + 1)
    simp only [Screen.drawRows, List.map_append, fits_append, List.foldl_append]
    exact ⟨⟨hfirst, hrest⟩, hend⟩

/-! ## Runs -/

theorem Shows.of_execute {p : Picture} {m : Machine} (h : p.Shows m.screen) (i : Instruction) :
    Fits see TurnsOver p (m.eventsAfter i) ∧
      Shows ((m.eventsAfter i).foldl see p) (m.screenAfter i) := by
  cases i with
  | clear => exact ⟨⟨trivial, trivial⟩, shows_dark⟩
  | draw x y n => exact h.drawRows _ _ _
  | setSound x =>
    -- whatever becomes of the tone is not seen
    simp only [Machine.eventsAfter, Machine.sounded]
    split
    · exact ⟨⟨trivial, trivial⟩, h⟩
    · split
      · exact ⟨⟨trivial, trivial⟩, h⟩
      · exact ⟨trivial, h⟩
  | _ => exact ⟨trivial, h⟩

/-- **The picture follows every change.** -/
theorem Shows.of_change {p : Picture} {m m' : Machine} {new : List Event} (h : p.Shows m.screen)
    (hc : m.Change m' new) :
    Fits see TurnsOver p new ∧ Shows (new.foldl see p) m'.screen := by
  cases hc with
  | none | keyDelivered | registerSet | memoryEdited | flagsSet => exact ⟨trivial, h⟩
  | @executed keypad dice i e _ _ hi =>
    have hscreen : (m.advanced e).screen = m.screenAfter i :=
      congrArg Machine.screen (Machine.machine_of_execute hi)
    rw [hscreen, Machine.events_of_execute hi]
    exact h.of_execute i
  | ticked =>
    split
    · exact ⟨⟨trivial, trivial⟩, h⟩
    · exact ⟨trivial, h⟩
  | reset =>
    simp only [Machine.reset]
    split
    · exact ⟨⟨trivial, trivial, trivial⟩, shows_dark⟩
    · exact ⟨⟨trivial, trivial⟩, shows_dark⟩

end Picture

/-- **The events mirror the screen.** After every run the picture that was kept from the events is
the one on the screen, and every pixel that was told of lies on the screen and was different in the
picture before. -/
theorem Machine.mirror_run (flags : Flags) (actions : List Action) :
    let h := (new flags).run actions
    (∀ (x : Fin 64) (y : Fin 32),
      h.events.foldl Picture.see Picture.dark x y = h.machine.screen.pixel x y) ∧
    ∀ before t after, h.events = before ++ .pixel t :: after →
      ∃ (x : Fin 64) (y : Fin 32), t.x = x.val ∧ t.y = y.val ∧
        before.foldl Picture.see Picture.dark x y = !t.lit := by
  have hrun := listener_run (R := fun m p => Picture.Shows p m.screen)
    (m := new flags) Picture.shows_dark Picture.Shows.of_change actions
  refine ⟨hrun.2, fun before t after heq => ?_⟩
  exact hrun.1.fit_of_eq heq

end Chip8
