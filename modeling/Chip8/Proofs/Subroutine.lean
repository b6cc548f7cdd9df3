import Chip8.Proofs.OpcodeMap
import Chip8.Proofs.Restart

/-!
# Calls and returns

A call puts the address behind it on the stack, above all that is there. Until a return takes it off
again, that address and all below it stay where they are, whatever the program and the host do in
the meantime, as long as no program is loaded or brought back. And it is a return that takes it off,
to that very address.

* `Moment.stackCase` lists what a single action can do with the stack.
* `Moment.suffix_or_returned` is the step of the induction: the address stays where it is, or a
  return takes it off. `Machine.returned_of_walk` is the induction.
* `Moment.call_unwinds` says it of everything that can be done after a call.
-/

namespace Chip8

/-- Whether an operation leaves the stack to the program. -/
def Operation.KeepsStack : Operation → Prop
  | .load _ | .reset => False
  | _ => True

/-! ## Single actions -/

namespace Moment

/-- What a single action does with the stack. -/
inductive StackCase (t : Moment) : Prop
  /-- The stack stays as it is. -/
  | kept (h : t.report.machine.stack = t.machine.stack)
  /-- A call puts the address behind it on the stack. -/
  | called {a : Fin 4096} (h : t.Executes (.call a))
      (hs : t.report.machine.stack = Word.wrap (t.machine.pc.toNat + 2) :: t.machine.stack)
  /-- A return takes the latest address off the stack and goes there. -/
  | returned {a : UInt16} (h : t.Executes .ret)
      (hs : t.machine.stack = a :: t.report.machine.stack)
      (hpc : t.report.machine.pc = Word.wrap a.toNat)

theorem Executes.stackCase {t : Moment} {i : Instruction} (h : t.Executes i) : t.StackCase := by
  obtain ⟨e, hi, hm⟩ := h.exists_effect
  have hstack : t.report.machine.stack = t.machine.stackAfter i := by
    rw [hm]
    show e.machine.stack = _
    rw [Machine.machine_of_execute hi]
  cases i with
  | call a => exact .called h hstack
  | ret =>
    obtain ⟨a, rest, hs, rfl⟩ := Machine.returned_eq_ok_iff.1 hi
    have hpc : t.report.machine.pc = Word.wrap a.toNat := by
      rw [hm]
      rfl
    refine .returned h ?_ hpc
    rw [hs, hm]
    rfl
  | _ => exact .kept hstack

/-- **What a single action does with the stack.** -/
theorem stackCase (t : Moment) (hs : t.action.operation.IsSingle)
    (hk : t.action.operation.KeepsStack) : t.StackCase := by
  obtain ⟨m, s, o⟩ := t
  cases o with
  | load rom | reset => exact hk.elim
  | multistep n => exact hs.elim
  | step =>
    have hreport := report_step m s
    have hc := m.stepCase s.keypad (s.dice 0)
    generalize m.step s.keypad (s.dice 0) = r at hc hreport
    cases hc with
    | idle | unknown | failed => exact .kept (by rw [hreport]; rfl)
    | executed h hw hi => exact (executes_of_execute h hw hi).1.stackCase
  | tick =>
    refine .kept ?_
    show m.tick.machine.stack = m.stack
    rw [Machine.machine_tick]
  | deliverKey key =>
    refine .kept ?_
    show (m.deliverKey key).machine.stack = m.stack
    rw [Machine.machine_deliverKey]
  | setRegister register value =>
    refine .kept ?_
    show (m.setRegister register value).machine.stack = m.stack
    rw [Machine.machine_setRegister]
  | editMemory edit =>
    refine .kept ?_
    show (m.editMemory edit).machine.stack = m.stack
    rw [Machine.machine_editMemory]
  | setFlags flags => exact .kept rfl

/-- What a single action leaves of a stack on which an address lies above others: either the address
stays there with the others below, or a return has taken it off and has gone there. -/
theorem suffix_or_returned {t : Moment} (hs : t.action.operation.IsSingle)
    (hk : t.action.operation.KeepsStack) {back : UInt16} {below : List UInt16}
    (h : (back :: below) <:+ t.machine.stack) :
    (back :: below) <:+ t.report.machine.stack ∨
      t.Executes .ret ∧ t.report.machine.pc = Word.wrap back.toNat ∧
        t.report.machine.stack = below := by
  cases t.stackCase hs hk with
  | kept hstack => exact .inl (hstack ▸ h)
  | called _ hstack => exact .inl (hstack ▸ h.trans (List.suffix_cons _ _))
  | returned hret hstack hpc =>
    rw [hstack, List.suffix_cons_iff] at h
    rcases h with heq | h
    · obtain ⟨rfl, rfl⟩ := List.cons.inj heq
      exact .inr ⟨hret, hpc, rfl⟩
    · exact .inl h

end Moment

/-! ## Runs -/

namespace Machine

theorem returned_of_walk {back : UInt16} {below : List UInt16} {before : List Moment} {u : Moment}
    {after : List Moment} {as : List Action} {m : Machine}
    (hs : ∀ a ∈ as, a.operation.IsSingle) (hk : ∀ a ∈ as, a.operation.KeepsStack)
    (h : (back :: below) <:+ m.stack) (hwalk : m.walk as = before ++ u :: after)
    (hbefore : ∀ v ∈ before, v.report.machine.stack.length ≠ below.length) :
    (back :: below) <:+ u.report.machine.stack ∨
      u.Executes .ret ∧ u.report.machine.pc = Word.wrap back.toNat ∧
        u.report.machine.stack = below := by
  -- the moments before the last one leave the stack higher than it was below the address
  induction before generalizing m as with
  | nil =>
    cases as with
    | nil => cases hwalk
    | cons a as =>
      obtain ⟨rfl, -⟩ := List.cons.inj hwalk
      exact Moment.suffix_or_returned (hs a List.mem_cons_self) (hk a List.mem_cons_self) h
  | cons v before ih =>
    cases as with
    | nil => cases hwalk
    | cons a as =>
      obtain ⟨rfl, hrest⟩ := List.cons.inj hwalk
      have hv : (m.act a).machine.stack.length ≠ below.length := hbefore _ List.mem_cons_self
      rcases Moment.suffix_or_returned (t := ⟨m, a⟩) (hs a List.mem_cons_self)
        (hk a List.mem_cons_self) h with h | ⟨-, -, hbelow⟩
      · exact ih (fun b hb => hs b (List.mem_cons_of_mem _ hb))
          (fun b hb => hk b (List.mem_cons_of_mem _ hb)) h hrest
          fun v hv => hbefore v (List.mem_cons_of_mem _ hv)
      · exact absurd (congrArg List.length hbelow) hv

end Machine

/-- **Calls and returns match.** Suppose that a step executes a call, at the address `pc` and with
the stack `below`, and that afterwards anything is done apart from loading a program or bringing it
back. Until the stack is as high again as before the call, the lowest addresses on it are those of
`below`, and above these the address behind the call. The action that makes it as high again is a
step that executes a return; it goes to the address behind the call and leaves the stack exactly as
it was before the call. -/
theorem Moment.call_unwinds {t : Moment} {target : Fin 4096} (h : t.Executes (.call target))
    {later : List Action} (hk : ∀ a ∈ later, a.operation.KeepsStack) :
    let below := t.machine.stack
    let back := Word.wrap (t.machine.pc.toNat + 2)
    below.length < stackDepth ∧ t.report.machine.stack = back :: below ∧
      ∀ before u after, t.report.machine.moments later = before ++ u :: after →
        (∀ v ∈ before, v.report.machine.stack.length ≠ below.length) →
          (below.length < u.report.machine.stack.length →
            (back :: below) <:+ u.report.machine.stack) ∧
          (u.report.machine.stack.length ≤ below.length →
            u.Executes .ret ∧ u.machine.fetch = 0x00ee ∧ u.report.machine.pc = back ∧
              u.report.machine.stack = below) := by
  intro below back
  obtain ⟨e, hi, hm⟩ := h.exists_effect
  have hdepth : below.length < stackDepth := (Machine.callTo_eq_ok_iff.1 hi).1
  have hstack : t.report.machine.stack = back :: below := by
    rw [hm]
    show e.machine.stack = _
    rw [Machine.machine_of_execute hi]
    rfl
  refine ⟨hdepth, hstack, fun before u after hmoments hbefore => ?_⟩
  have hback : Word.wrap back.toNat = back := Word.wrap_toNat_wrap _
  have hstart : (back :: below) <:+ t.report.machine.stack := hstack ▸ List.suffix_rfl
  have hend := Machine.returned_of_walk (fun a ha => Machine.isSingle_of_mem_singles ha)
    (Machine.forall_mem_singles trivial trivial hk) hstart hmoments hbefore
  rw [hback] at hend
  rcases hend with hsuffix | ⟨hret, hpc, hbelow⟩
  · refine ⟨fun _ => hsuffix, fun hle => ?_⟩
    have hlt : below.length < u.report.machine.stack.length := hsuffix.length_le
    exact absurd hle (Nat.not_le.2 hlt)
  · refine ⟨fun hlt => ?_, fun _ =>
      ⟨hret, (Instruction.ofWord?_eq_ret_iff _).1 hret.word, hpc, hbelow⟩⟩
    rw [hbelow] at hlt
    exact absurd hlt (Nat.lt_irrefl _)

/-- A machine whose program calls a subroutine, which returns at once. -/
def caller : Machine :=
  ((Machine.new {}).load [0x22, 0x04, 0x00, 0x00, 0x00, 0xee]).machine

/-- The machine inside the subroutine. -/
def called : Machine :=
  { caller with stack := [0x202], pc := 0x204, cycle := 1 }

theorem Moment.call_unwinds_caller :
    let call : Moment := ⟨caller, .calm, .step⟩
    let back : Moment := ⟨call.report.machine, .calm, .step⟩
    call.Executes (.call 0x204) ∧ (∀ a ∈ [back.action], a.operation.KeepsStack) ∧
      back.report.machine.stack.length ≤ 0 ∧
      back.Executes .ret ∧ back.report.machine.pc = 0x202 ∧ back.report.machine.stack = [] := by
  intro call back
  have hrom : caller.memory.HoldsOnly [0x22, 0x04, 0x00, 0x00, 0x00, 0xee] :=
    Memory.holdsOnly_writeAll (by decide)
  have hfirst : caller.fetch = 0x2204 :=
    Machine.fetch_of_holdsOnly (k := 0) hrom rfl (by decide)
  have hsecond : called.fetch = 0x00ee :=
    Machine.fetch_of_holdsOnly (m := called) (k := 4) hrom rfl (by decide)
  obtain ⟨hcall, hcalled⟩ := executes_of_execute (m := caller) (s := .calm) (i := .call 0x204)
    ⟨rfl, rfl⟩ (by rw [hfirst]; rfl) rfl
  obtain ⟨-, hreturned⟩ := executes_of_execute (m := called) (s := .calm) (i := .ret)
    ⟨rfl, rfl⟩ (by rw [hsecond]; rfl) rfl
  have hback : back = ⟨called, .calm, .step⟩ := congrArg (Moment.mk · ⟨.calm, .step⟩) hcalled
  have hempty : back.report.machine.stack.length ≤ 0 := by
    rw [hback, hreturned]
    exact Nat.le_refl 0
  have hkeeps : ∀ a ∈ [back.action], a.operation.KeepsStack :=
    List.forall_mem_singleton.2 trivial
  obtain ⟨-, -, hmoments⟩ := Moment.call_unwinds hcall hkeeps
  obtain ⟨hret, -, hpc, hstack⟩ :=
    (hmoments [] back [] rfl fun _ h => absurd h List.not_mem_nil).2 hempty
  exact ⟨hcall, hkeeps, hempty, hret, hpc, hstack⟩

end Chip8
