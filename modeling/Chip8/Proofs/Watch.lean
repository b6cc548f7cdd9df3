import Chip8.Proofs.Frames
import Chip8.Proofs.Mirror

/-!
# Watching a run

A run that is watched prints the screen after a frame only if something was drawn or cleared in it.
This saves many screens, and still the one printed last is never out of date.

* `Machine.screen_run_of_quiet` says that a screen changes only by events that are told of.
* `Session.shown_frame` is about what is shown of one frame.
* `Session.Sound.exists_shown_eq` finds the present screen behind all the others.
* `Runner.watched_screens` is about all that is printed, and about the last screen in it.
-/

namespace Chip8

theorem Screen.brailleText_ne_empty (s : Screen) : s.brailleText ≠ "" := by
  intro h
  have hchars := congrArg String.toList h
  simp [brailleText] at hchars

/-! ## Runs without drawing -/

theorem Picture.see_of_not_changesScreen (p : Picture) (e : Event)
    (h : Runner.changesScreen e = false) : p.see e = p := by
  cases e with
  | pixel | cleared => cases h
  | toneStart | toneStop => rfl

/-- A picture is the one on a single screen. -/
theorem Picture.Shows.screen_eq {p : Picture} {s s' : Screen} (h : p.Shows s) (h' : p.Shows s') :
    s = s' := by
  ext x y
  have hx : x % 64 < 64 := Nat.mod_lt _ (by decide)
  have hy : y % 32 < 32 := Nat.mod_lt _ (by decide)
  rw [← s.pixel_mod, ← s'.pixel_mod]
  exact (h ⟨_, hx⟩ ⟨_, hy⟩).symm.trans (h' ⟨_, hx⟩ ⟨_, hy⟩)

/-- **A run that tells of nothing drawn leaves the screen as it is**: a listener who has it before
them at first keeps the same picture. -/
theorem Machine.screen_run_of_quiet {m : Machine} {actions : List Action}
    (h : (m.run actions).events.any Runner.changesScreen = false) :
    (m.run actions).machine.screen = m.screen := by
  have hstart : Picture.Shows (fun x y => m.screen.pixel x y) m.screen := fun _ _ => rfl
  have hquiet : (m.run actions).events.filter Runner.changesScreen = [] := by
    simpa [List.filter_eq_nil_iff] using h
  have hshows := (listener_run (R := fun m p => Picture.Shows p m.screen) hstart
    Picture.Shows.of_change actions).2
  rw [← foldl_filter_heard Picture.see_of_not_changesScreen, hquiet, List.foldl_nil] at hshows
  exact hshows.screen_eq hstart

namespace Runner

/-! ## What is shown of a frame -/

theorem any_changesScreen_iff (events : List Event) :
    events.any changesScreen = true ↔ .cleared ∈ events ∨ ∃ t, .pixel t ∈ events := by
  rw [List.any_eq_true]
  constructor
  · rintro ⟨e, he, hchanges⟩
    cases e with
    | pixel t => exact .inr ⟨t, he⟩
    | cleared => exact .inl he
    | toneStart | toneStop => cases hchanges
  · rintro (he | ⟨t, he⟩)
    · exact ⟨_, he, rfl⟩
    · exact ⟨_, he, rfl⟩

/-- The screen that is shown, if it is one. -/
def Shown.screen? : Shown → Option Screen
  | .screen s => some s
  | .trace _ | .registers _ => none

/-- The screens among what is shown, in their order. -/
def screens (shown : List Shown) : List Screen :=
  shown.filterMap Shown.screen?

theorem screens_append (before after : List Shown) :
    screens (before ++ after) = screens before ++ screens after :=
  List.filterMap_append

theorem screens_trace (lines : List TraceLine) : screens (lines.map .trace) = [] := by
  simp [screens, Shown.screen?, Function.comp_def]

theorem text_trace (lines : List TraceLine) :
    (lines.map Shown.trace).map Shown.text = lines.map TraceLine.text := by
  rw [List.map_map]
  rfl

namespace Session

/-- **A frame shows** its lines of the trace, and behind them the screen if that has not been shown
since something was drawn. Then it counts as shown. -/
theorem shown_frame {s : Session} (hwatch : s.settings.watch = true) (hok : s.answer = .ok ()) :
    s.frame.shown = s.history.trace.map .trace ++
        (if s.dirty || s.history.events.any changesScreen then
          [.screen s.frame.session.machine.screen]
        else []) ∧
      s.frame.session.dirty = false := by
  rw [frame_of_ok hok, hwatch]
  exact ⟨rfl, rfl⟩

section

variable {settings : Settings} {s : Session} {k : Nat} (hk : (s.after (k + 1)).ended = false)

include hk

theorem screen_after_succ (hquiet : (s.after k).history.events.any changesScreen = false) :
    (s.after (k + 1)).machine.screen = (s.after k).machine.screen := by
  rw [after_succ (ended_after_of_succ hk), machine_frame]
  exact Machine.screen_run_of_quiet hquiet

variable (h : s.Sound settings) (hwatch : settings.watch = true)

include h hwatch

theorem Sound.dirty_after : (s.after (k + 1)).dirty = false := by
  have hlast := ended_after_of_succ hk
  rw [after_succ hlast] at hk ⊢
  exact (shown_frame ((h.after k).settings_eq ▸ hwatch) ((ended_frame hlast).1 hk)).2

variable (hdirty : s.dirty = true)

include hdirty

/-- A frame that comes out well shows the screen if it is the first one, or if something is drawn in
it. -/
theorem Sound.shown_frames_succ :
    (s.frames (k + 1)).shown = (s.frames k).shown ++ (s.after k).history.trace.map .trace ++
      if k = 0 ∨ (s.after k).history.events.any changesScreen = true then
        [.screen (s.after (k + 1)).machine.screen]
      else [] := by
  have hlast := ended_after_of_succ hk
  have hok := (ended_frame hlast).1 (after_succ hlast ▸ hk)
  rw [after_succ hlast, frames_succ_last hlast, List.append_assoc,
    (shown_frame ((h.after k).settings_eq ▸ hwatch) hok).1]
  cases k with
  | zero => rw [after_zero, hdirty, if_pos (Or.inl rfl), Bool.true_or, if_pos rfl]
  | succ k =>
    rw [h.dirty_after hlast hwatch, Bool.false_or]
    simp

theorem Sound.printed_of_drawn
    (hdrawn : k = 0 ∨ (s.after k).history.events.any changesScreen = true) :
    let screen := (s.after (k + 1)).machine.screen
    let lines := String.join ((s.after k).history.trace.map TraceLine.text)
    screens (s.frames (k + 1)).shown = screens (s.frames k).shown ++ [screen] ∧
      s.output (k + 1) = s.output k ++ lines ++ screen.brailleText := by
  intro screen lines
  have hshown := h.shown_frames_succ hk hwatch hdirty
  rw [if_pos hdrawn] at hshown
  rw [output, output, hshown]
  constructor
  · rw [screens_append, screens_append, screens_trace, List.append_nil]
    rfl
  · rw [List.map_append, List.map_append, text_trace, String.join_append, String.join_append,
      List.map_singleton, String.join_cons, String.join_nil, String.append_empty]
    rfl

theorem Sound.printed_of_quiet (hfirst : k ≠ 0)
    (hquiet : (s.after k).history.events.any changesScreen = false) :
    let lines := String.join ((s.after k).history.trace.map TraceLine.text)
    screens (s.frames (k + 1)).shown = screens (s.frames k).shown ∧
      s.output (k + 1) = s.output k ++ lines := by
  intro lines
  have hshown := h.shown_frames_succ hk hwatch hdirty
  rw [if_neg (by simp [hfirst, hquiet]), List.append_nil] at hshown
  rw [output, output, hshown]
  constructor
  · rw [screens_append, screens_trace, List.append_nil]
  · rw [List.map_append, text_trace, String.join_append]

/-- **The screen shown last is the present one**: behind it come lines of the trace only. -/
theorem Sound.exists_shown_eq :
    ∃ (earlier : List Shown) (later : List TraceLine), (s.frames (k + 1)).shown =
      earlier ++ .screen (s.after (k + 1)).machine.screen :: later.map .trace := by
  induction k with
  | zero => exact ⟨_, [], h.shown_frames_succ hk hwatch hdirty⟩
  | succ k ih =>
    rw [h.shown_frames_succ hk hwatch hdirty]
    cases hquiet : (s.after (k + 1)).history.events.any changesScreen with
    | true =>
      rw [if_pos (Or.inr rfl)]
      exact ⟨_, [], rfl⟩
    | false =>
      -- no screen is shown, so it is the one from before, and that has not changed
      obtain ⟨earlier, later, hshown⟩ := ih (ended_after_of_succ hk)
      refine ⟨earlier, later ++ (s.after (k + 1)).history.trace, ?_⟩
      rw [if_neg (by simp), List.append_nil, screen_after_succ hk hquiet, hshown, List.map_append,
        List.append_assoc, List.cons_append]

end

end Session

/-- **No screen that is watched is out of date.** Let a run begin that is watched, and let a frame
of it come out well.

* A screen has been printed, and the one printed last is that of the machine: behind its text there
  are only lines of the trace.
* After the first frame the screen is printed, and after a later one if and only if it was cleared
  in it or a pixel turned over.
* If nothing of the kind has happened the screen is as it was, and after a later frame than the
  first only lines of the trace are printed.
* This is how the standard output of the run begins, if it has so many frames. -/
theorem watched_screens {settings : Settings} {dice : Nat → UInt8}
    {file : Except FileFault (List UInt8)} {s : Session} (hs : start settings dice file = .ok s)
    (hwatch : settings.watch = true) {k : Nat} (hk : (s.after (k + 1)).ended = false) :
    let screen := (s.after (k + 1)).machine.screen
    let before := screens (s.frames k).shown
    let after := screens (s.frames (k + 1)).shown
    let events := (s.after k).history.events
    let drawn := .cleared ∈ events ∨ ∃ t, .pixel t ∈ events
    let lines := String.join ((s.after k).history.trace.map TraceLine.text)
    (after.getLast? = some screen ∧
      ∃ (earlier : String) (later : List TraceLine), s.output (k + 1) =
        earlier ++ screen.brailleText ++ String.join (later.map TraceLine.text)) ∧
    (k = 0 ∨ drawn → after = before ++ [screen]) ∧
    (k = 0 ∨ drawn ↔ s.output (k + 1) = s.output k ++ lines ++ screen.brailleText) ∧
    (¬drawn → screen = (s.after k).machine.screen ∧
      (k ≠ 0 → after = before ∧ s.output (k + 1) = s.output k ++ lines)) ∧
    (k < settings.frames →
      ∃ rest, (run settings dice file).stdout = s.output (k + 1) ++ rest) := by
  intro screen before after events drawn lines
  have hsound := sound_of_start hs
  obtain ⟨_, -, -, -, hbegins⟩ := begins_of_start hs
  have hdrawn : events.any changesScreen = true ↔ drawn := any_changesScreen_iff events
  have hprinted (h : k = 0 ∨ drawn) :=
    hsound.printed_of_drawn hk hwatch hbegins.dirty_eq (h.imp_right hdrawn.2)
  have hquiet (h : ¬drawn) : events.any changesScreen = false :=
    Bool.eq_false_iff.2 (mt hdrawn.1 h)
  have hsilent (hfirst : k ≠ 0) (h : ¬drawn) :=
    hsound.printed_of_quiet hk hwatch hbegins.dirty_eq hfirst (hquiet h)
  obtain ⟨earlier, later, hshown⟩ := hsound.exists_shown_eq hk hwatch hbegins.dirty_eq
  refine ⟨⟨?last, ?text⟩, fun h => (hprinted h).1, ⟨fun h => (hprinted h).2, fun h => ?drawn⟩,
    fun h => ⟨Session.screen_after_succ hk (hquiet h), fun hfirst => hsilent hfirst h⟩,
    fun hlt => ?rest⟩
  case last =>
    show (screens (s.frames (k + 1)).shown).getLast? = _
    rw [hshown, List.append_cons, screens_append, screens_append, screens_trace, List.append_nil]
    exact List.getLast?_concat
  case text =>
    refine ⟨String.join (earlier.map Shown.text), later, ?_⟩
    rw [Session.output, hshown, List.map_append, String.join_append, List.map_cons,
      String.join_cons, text_trace, String.append_assoc]
    rfl
  case drawn =>
    -- a frame that is not to print the screen would print less than that
    refine Classical.byContradiction fun hno => ?_
    obtain ⟨hfirst, hquiet⟩ := not_or.1 hno
    rw [(hsilent hfirst hquiet).2] at h
    exact screen.brailleText_ne_empty (String.append_eq_left_iff.1 h.symm)
  case rest =>
    obtain ⟨later, hlater⟩ := s.exists_output_eq_append (Nat.succ_le_of_lt hlt)
    rw [run_of_start hs, hlater]
    exact ⟨_, (String.append_assoc ..).trans (String.append_assoc ..)⟩

/-- Of three frames the second one draws the digit zero, and the last one nothing. -/
theorem watched_screens_drawing :
    let settings : Settings := { clock := 60, frames := 3, watch := true }
    let dice : Nat → UInt8 := fun _ => 0
    let rom : List UInt8 := [0xa0, 0x50, 0xd0, 0x05, 0x12, 0x04]
    let s := begun settings dice ((Machine.new settings.flags).load rom) Keypad.idle
    let first := (s.after 1).machine.screen
    let second := (s.after 2).machine.screen
    start settings dice (.ok rom) = .ok s ∧ (s.after 3).ended = false ∧
      screens (s.frames 3).shown = [first, second] ∧ (s.after 3).machine.screen = second ∧
      ∃ rest, (run settings dice (.ok rom)).stdout =
        first.brailleText ++ second.brailleText ++ rest := by
  intro settings dice rom s first second
  have hs : start settings dice (.ok rom) = .ok s := rfl
  obtain ⟨hended, hdrawn, hquiet, htrace⟩ : (s.after 3).ended = false ∧
      (s.after 1).history.events.any changesScreen = true ∧
      ¬(s.after 2).history.events.any changesScreen = true ∧
      ∀ k < 3, (s.after k).history.trace = [] := by decide +kernel
  have hended' := Session.ended_after_of_succ hended
  obtain ⟨-, hfirst, hone, -⟩ :=
    watched_screens hs rfl (Session.ended_after_of_succ hended')
  obtain ⟨-, hsecond, htwo, -⟩ := watched_screens hs rfl hended'
  obtain ⟨-, -, -, hthird, hbegins⟩ := watched_screens hs rfl hended
  obtain ⟨hscreen, hlast⟩ := hthird (mt (any_changesScreen_iff _).2 hquiet)
  obtain ⟨hshown, hthree⟩ := hlast (Nat.succ_ne_zero 1)
  have hdrawn' := (any_changesScreen_iff _).1 hdrawn
  have htyped := hsecond (.inr hdrawn')
  rw [hfirst (.inl rfl)] at htyped
  obtain ⟨rest, hrest⟩ := hbegins (by decide)
  refine ⟨hs, hended, hshown.trans htyped, hscreen, rest, ?_⟩
  rw [hrest, hthree, htwo.1 (.inr hdrawn'), hone.1 (.inl rfl), htrace 0 (by decide),
    htrace 1 (by decide), htrace 2 (by decide)]
  simp [Session.output, first, second]

end Runner

end Chip8
