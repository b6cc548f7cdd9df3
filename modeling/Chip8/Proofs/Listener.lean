import Chip8.Proofs.Execution

/-!
# Listeners

Something outside that follows the events of a machine with a state of its own, one event after
another. `listener_run` is the principle for a listener that keeps up: if every change of the
machine leaves the listener in step with it, and brings no event that does not fit, then so does
every run.
-/

namespace Chip8

variable {σ : Type} {hear : σ → Event → σ} {fit : σ → Event → Prop}

/-- Every event fits the state in which the listener is when it comes. -/
def Fits (hear : σ → Event → σ) (fit : σ → Event → Prop) (s : σ) : List Event → Prop
  | [] => True
  | e :: rest => fit s e ∧ Fits hear fit (hear s e) rest

theorem fits_append {s : σ} {es fs : List Event} :
    Fits hear fit s (es ++ fs) ↔ Fits hear fit s es ∧ Fits hear fit (es.foldl hear s) fs := by
  induction es generalizing s with
  | nil => exact (iff_of_eq (true_and _)).symm
  | cons e es ih =>
    show fit s e ∧ Fits hear fit (hear s e) (es ++ fs) ↔ _
    rw [ih, ← and_assoc]
    rfl

/-- An event that fits after those before it. -/
theorem Fits.fit_of_eq {s : σ} {es before after : List Event} {e : Event}
    (h : Fits hear fit s es) (heq : es = before ++ e :: after) : fit (before.foldl hear s) e := by
  rw [heq, fits_append] at h
  exact h.2.1

/-! ## Events that are not heard -/

section Filter

variable {heard : Event → Bool} (hhear : ∀ s e, heard e = false → hear s e = s)

include hhear

theorem foldl_filter_heard (s : σ) (es : List Event) :
    (es.filter heard).foldl hear s = es.foldl hear s := by
  induction es generalizing s with
  | nil => rfl
  | cons e es ih =>
    cases he : heard e with
    | false =>
      rw [List.filter_cons_of_neg (Bool.eq_false_iff.1 he), ih, List.foldl_cons, hhear s e he]
    | true => rw [List.filter_cons_of_pos he, List.foldl_cons, List.foldl_cons, ih]

end Filter

/-! ## Runs -/

/-- **A listener that keeps up with every change keeps up with every run.** -/
theorem Machine.listener_run {R : Machine → σ → Prop} {m : Machine} {s : σ} (start : R m s)
    (next : ∀ {m m' : Machine} {s : σ} {new : List Event}, R m s → m.Change m' new →
      Fits hear fit s new ∧ R m' (new.foldl hear s))
    (actions : List Action) :
    Fits hear fit s (m.run actions).events ∧
      R (m.run actions).machine ((m.run actions).events.foldl hear s) := by
  refine run_induction (P := fun m told => Fits hear fit s told ∧ R m (told.foldl hear s))
    ⟨trivial, start⟩ (fun {m m' told new} h hc => ?_) actions
  obtain ⟨hfits, hr⟩ := next h.2 hc
  rw [fits_append, List.foldl_append]
  exact ⟨⟨h.1, hfits⟩, hr⟩

end Chip8
