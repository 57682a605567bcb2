import StackVm.Proofs.Steady.Engine
import StackVm.Proofs.Activation.Blind

/-! The handler search.  `Act.unwind` looks up the exception a failed instruction raised, chains
it to the exception the frame handles when it has no context, appends the entry of the
instruction to its traceback, and hands it to the first handler whose range covers the
instruction, or lets it go when none does.  `Act.unwind_raise` says all of it at once: what the
exception is after the search, whichever way the search ends, and that it leaves the frame only
when no handler covers the instruction. -/

namespace StackVm

namespace Vm

/-! ### Looking up and chaining an exception -/

theorem obj_of_get? {m : Machine} {a : Addr} {o : Obj} (h : m.heap.get? a = some o) :
    obj a m = .ok o m := by
  unfold obj
  rw [get_bind_run, h]
  rfl

theorem obj_faults {m m' : Machine} {a : Addr} {f : Fault} (h : obj a m = .error f m') :
    ∃ ie, f = .internal ie := by
  unfold obj at h
  rw [get_bind_run] at h
  cases hg : m.heap.get? a with
  | some o =>
    rw [hg] at h
    cases h
  | none =>
    rw [hg] at h
    cases h
    exact ⟨_, rfl⟩

theorem exc_of_get? {m : Machine} {a : Addr} {e : Exc} (h : m.heap.get? a = some (.exception e)) :
    exc a m = .ok e m := by
  unfold exc
  rw [EStateM.run_bind_of_ok (obj_of_get? h)]
  rfl

theorem exc_faults {m m' : Machine} {a : Addr} {f : Fault} (h : exc a m = .error f m') :
    ∃ ie, f = .internal ie := by
  unfold exc at h
  cases ho : obj a m with
  | error f' m₁ =>
    rw [EStateM.run_bind_of_error ho] at h
    cases h
    exact obj_faults ho
  | ok o m₁ =>
    rw [EStateM.run_bind_of_ok ho] at h
    split at h
    · cases h
    · cases h
      exact ⟨_, rfl⟩

theorem obj_ok {m m' : Machine} {a : Addr} {o : Obj} (h : obj a m = .ok o m') :
    m' = m ∧ m.heap.get? a = some o := by
  unfold obj at h
  rw [get_bind_run] at h
  cases hg : m.heap.get? a with
  | some o' =>
    rw [hg] at h
    cases h
    exact ⟨rfl, rfl⟩
  | none =>
    rw [hg] at h
    cases h

theorem exc_ok {m m' : Machine} {a : Addr} {e : Exc} (h : exc a m = .ok e m') :
    m' = m ∧ m.heap.get? a = some (.exception e) := by
  unfold exc at h
  cases ho : obj a m with
  | error f m₁ =>
    rw [EStateM.run_bind_of_error ho] at h
    cases h
  | ok o m₁ =>
    rw [EStateM.run_bind_of_ok ho] at h
    obtain ⟨rfl, hg⟩ := obj_ok ho
    split at h
    · cases h
      exact ⟨rfl, hg⟩
    · cases h

/-- The context that chaining `this` to the handled exception `handled` leaves on it, when it
had `c`: the handled exception, unless there is none, or it is `this` itself, or it already
leads to `this`. -/
def chainedContext (h : Heap) (this : Addr) (handled c : Option Addr) : Option Addr :=
  match handled with
  | some hd => if hd == this || chainReaches h hd this then c else some hd
  | none => c

theorem chainContext_exc (handled : Option Addr) {m : Machine} {this : Addr} {e : Exc}
    (he : m.heap.get? this = some (.exception e)) :
    ∃ m', chainContext this handled m = .ok () m' ∧
      m'.heap.get? this =
        some (.exception { e with context := chainedContext m.heap this handled e.context }) ∧
      ∀ b, b ≠ this → m'.heap.get? b = m.heap.get? b := by
  unfold chainContext
  cases handled with
  | none => exact ⟨m, rfl, he, fun _ _ => rfl⟩
  | some hd =>
    dsimp only
    rw [get_bind_run]
    by_cases hc : (hd == this || chainReaches m.heap hd this) = true
    · rw [if_pos hc]
      refine ⟨m, rfl, ?_, fun _ _ => rfl⟩
      simp only [chainedContext, hc, ↓reduceIte, he]
    · rw [if_neg hc]
      refine ⟨_, rfl, ?_, fun b hb => ?_⟩
      · simp only [Heap.get?_modify_eq, ↓reduceIte, he, Option.map_some, chainedContext, hc,
          Bool.false_eq_true]
      · simp only [Heap.get?_modify_eq, Ne.symm hb, ↓reduceIte]

end Vm

namespace Act

open EStateM

variable {α β : Type}

theorem reads_bind_run (g : Frame → α) (f : α → Act β) (s : Active) :
    (reads g >>= f) s = f (g s.frame) s := rfl

theorem modifyFrame_bind_run (g : Frame → Frame) (f : Unit → Act β) (s : Active) :
    (modifyFrame g >>= f) s = f () ⟨s.machine, g s.frame⟩ := rfl

theorem vm_bind_run_of_ok {x : Vm α} {f : α → Act β} {s : Active} {v : α} {m : Machine}
    (h : x s.machine = .ok v m) : (vm x >>= f) s = f v ⟨m, s.frame⟩ :=
  run_bind_of_ok (vm_of_ok h)

theorem modifyExc_bind_run (a : Addr) (g : Exc → Exc) (f : Unit → Act β) (s : Active) :
    (vm (Vm.modifyExc a g) >>= f) s =
      f () ⟨{ s.machine with heap := s.machine.heap.modify a (Obj.mapExc g) }, s.frame⟩ := rfl

/-- Pushing a value changes the frame alone, also when it fails, and so does a push followed
by a computation on the frame. -/
theorem push_bind_machine (v : Value) {f : Unit → Act β}
    (hf : ∀ s, (f () s).state.machine = s.machine) (s : Active) :
    ((push v >>= f) s).state.machine = s.machine := by
  have hpush : (push v s).state.machine = s.machine := by
    unfold push
    rw [reads_bind_run]
    split <;> rfl
  cases hp : push v s with
  | ok _ s' =>
    rw [run_bind_of_ok hp, hf]
    rw [hp] at hpush
    exact hpush
  | error _ s' =>
    rw [run_bind_of_error hp]
    rw [hp] at hpush
    exact hpush

theorem dispatch_machine (E : Addr) (s : Active) : (dispatch E s).state.machine = s.machine := by
  unfold dispatch
  rw [reads_bind_run]
  cases s.frame.unit.handlers.find s.frame.instrPc with
  | none => rfl
  | some r =>
    dsimp only
    rw [modifyFrame_bind_run, push_bind_machine _ (fun _ => rfl)]

/-- An exception leaves the frame only when no range covers the instruction; pushing it for a
handler can only fail with an internal error. -/
theorem dispatch_escapes {E a : Addr} {s s' : Active} (h : dispatch E s = .error (.raise a) s') :
    a = E ∧ s.frame.unit.handlers.find s.frame.instrPc = none := by
  unfold dispatch at h
  rw [reads_bind_run] at h
  cases hf : s.frame.unit.handlers.find s.frame.instrPc with
  | none =>
    rw [hf] at h
    cases h
    exact ⟨rfl, rfl⟩
  | some r =>
    rw [hf] at h
    dsimp only at h
    rw [modifyFrame_bind_run] at h
    cases hp : push (.ref E) _ with
    | ok _ t' =>
      rw [run_bind_of_ok hp] at h
      cases h
    | error f t' =>
      rw [run_bind_of_error hp] at h
      cases h
      obtain ⟨ie, hie⟩ := (blind_push _).faults _ _ _ hp
      cases hie

/-- Before the search, the exception is chained to the frame's handled exception if it has no
context, and the entry of the current instruction is appended to its traceback; the frame is
untouched until the search. -/
theorem unwind_raise_dispatch {u : Active} {E : Addr} {e : Exc}
    (he : u.machine.heap.get? E = some (.exception e)) :
    ∃ m, m.heap.get? E = some (.exception ((if e.context.isNone then
        { e with context := Vm.chainedContext u.machine.heap E u.frame.currentHandled e.context }
      else e).pushTrace u.frame.traceEntry)) ∧
      unwind (.raise E) u = dispatch E ⟨m, u.frame⟩ := by
  rw [unwind.eq_1, run_bind_of_ok (vm_of_ok (Vm.exc_of_get? he))]
  dsimp only
  split
  obtain ⟨m₂, hc, he₂, -⟩ := Vm.chainContext_exc u.frame.currentHandled he
  rw [reads_bind_run, vm_bind_run_of_ok hc]
  swap
  have he₂ := he
  all_goals
    rw [reads_bind_run, modifyExc_bind_run]
    refine ⟨_, ?_, rfl⟩
    change (Heap.modify _ E _).get? E = _
    rw [Heap.get?_modify_eq, if_pos rfl, he₂]
    rfl

/-- The handler search for an exception at `u`.  The exception is chained to the frame's
handled exception if it has no context, and the entry of the current instruction is appended to
its traceback; whether a handler takes it, it leaves, or pushing it fails, that is the exception
the store holds afterwards.  It leaves the frame only when no handler covers the instruction. -/
theorem unwind_raise {u : Active} {E : Addr} {e : Exc}
    (he : u.machine.heap.get? E = some (.exception e)) :
    (unwind (.raise E) u).state.machine.heap.get? E = some (.exception ((if e.context.isNone then
        { e with context := Vm.chainedContext u.machine.heap E u.frame.currentHandled e.context }
      else e).pushTrace u.frame.traceEntry)) ∧
    ∀ a s, unwind (.raise E) u = .error (.raise a) s →
      a = E ∧ u.frame.unit.handlers.find u.frame.instrPc = none := by
  obtain ⟨m, hm, heq⟩ := unwind_raise_dispatch he
  rw [heq, dispatch_machine]
  exact ⟨hm, fun a s h => dispatch_escapes (s := ⟨m, u.frame⟩) h⟩

end Act

end StackVm
