import StackVm.Proofs.Activation.Traceback
import StackVm.Proofs.Retains.Step
import StackVm.Proofs.Activation.Walk
import StackVm.Proofs.Engine.Sound

/-! An exception on its way out of nested activations.  A function call runs the callee's
activation inside the caller's call instruction; an exception that activation lets out comes
out of the call unchanged, with the store the callee ended with, and the caller's handler search
then appends the caller's entry.  Everything else a call does before the callee runs (binding
the arguments, counting the activation against the depth limit) raises only new exceptions,
whose tracebacks are empty.

`Act.Unwinds` follows an escaping exception inward, from the activation it left last to the one
it was raised in, one entry per activation.  Every exception that leaves an activation unwinds
so, and its traceback is the one it was raised with followed by those entries, innermost first,
an entry equal to the one before it being recorded once. -/

namespace StackVm

/-- An exception that no activation has let out yet: its traceback is empty. -/
def Heap.Fresh (h : Heap) (a : Addr) : Prop :=
  ∃ e, h.get? a = some (.exception e) ∧ e.traceback = #[]

/-- The traceback entry of an offset of a unit: the unit's name, the offset and its line. -/
def CodeUnit.entryAt (u : CodeUnit) (pc : Nat) : TraceEntry := ⟨u.name, pc, u.lineFor pc⟩

theorem Heap.Retains.function {h h' : Heap} {a : Addr} (hr : h.Retains h') {f : Function}
    (hf : h.get? a = some (.function f)) : ∃ f', h'.get? a = some (.function f') := by
  obtain ⟨o', ho', hk⟩ := hr a _ hf
  cases o' <;> first | exact ⟨_, ho'⟩ | cases hk

namespace Vm

variable {α β γ : Type} {O : Heap → Addr → Prop}

/-- Every exception `x` lets out satisfies `O` in the store `x` ends with. -/
def OnRaise (O : Heap → Addr → Prop) (x : Vm α) : Prop :=
  ∀ m a m', x m = .error (.raise a) m' → O m'.heap a

namespace OnRaise

variable {x y : Vm α} {f : α → Vm β}

protected theorem pure (a : α) : OnRaise O (Pure.pure a : Vm α) := fun _ _ _ h => nomatch h

theorem throw_internal (ie : InternalError) : OnRaise O (throw (.internal ie) : Vm α) :=
  fun _ _ _ h => nomatch h

protected theorem bind (hx : OnRaise O x) (hf : ∀ a, OnRaise O (f a)) : OnRaise O (x >>= f) := by
  intro m a m' h
  cases hxm : x m with
  | ok b m₁ =>
    rw [EStateM.run_bind_of_ok hxm] at h
    exact hf b m₁ a m' h
  | error e m₁ =>
    rw [EStateM.run_bind_of_error hxm] at h
    cases h
    exact hx m a m' hxm

protected theorem ite {c : Prop} [Decidable c] (hx : c → OnRaise O x) (hy : ¬ c → OnRaise O y) :
    OnRaise O (if c then x else y) := by
  split
  · exact hx ‹_›
  · exact hy ‹_›

protected theorem get_bind {g : Machine → Vm β} (hg : ∀ m, OnRaise O (g m)) :
    OnRaise O (get >>= g) :=
  fun m => hg m m

protected theorem modify (g : Machine → Machine) : OnRaise O (modify g : Vm PUnit) :=
  fun _ _ _ h => nomatch h

protected theorem modifyGet (g : Machine → α × Machine) : OnRaise O (modifyGet g : Vm α) :=
  fun _ _ _ h => nomatch h

protected theorem set (m : Machine) : OnRaise O (set m : Vm PUnit) :=
  fun _ _ _ h => nomatch h

protected theorem forIn_list {g : γ → β → Vm (ForInStep β)} (hg : ∀ c b, OnRaise O (g c b)) :
    ∀ (xs : List γ) (b : β), OnRaise O (forIn xs b g)
  | [], b => by
    rw [List.forIn_nil]
    exact OnRaise.pure b
  | c :: xs, b => by
    rw [List.forIn_cons]
    refine (hg c b).bind fun r => ?_
    cases r with
    | done b' => exact OnRaise.pure b'
    | yield b' => exact OnRaise.forIn_list hg xs b'

protected theorem forIn_array {g : γ → β → Vm (ForInStep β)} (hg : ∀ c b, OnRaise O (g c b))
    (xs : Array γ) (b : β) : OnRaise O (forIn xs b g) := by
  rw [← Array.forIn_toList]
  exact OnRaise.forIn_list hg xs.toList b

theorem leaving (hx : OnRaise O x) :
    OnRaise O (tryCatch x fun e => leaveActivation >>= fun _ => throw e) := by
  intro m a m' h
  cases hxm : x m with
  | ok b m₁ =>
    rw [EStateM.run_tryCatch_of_ok hxm] at h
    cases h
  | error e m₁ =>
    rw [EStateM.run_tryCatch_of_error hxm] at h
    cases h
    exact hx m a m₁ hxm

theorem raise (hO : ∀ h a, h.Fresh a → O h a) (r : Raise) : OnRaise O (Vm.raise r : Vm α) := by
  intro m a m' h
  cases h
  exact hO _ _ ⟨_, Heap.get?_alloc _ _, rfl⟩

end OnRaise

section Primitives

variable (hO : ∀ h a, h.Fresh a → O h a)

theorem onRaise_obj (a : Addr) : OnRaise O (obj a) := by
  refine OnRaise.get_bind fun m => ?_
  split
  · exact OnRaise.pure _
  · exact OnRaise.throw_internal _

theorem onRaise_codeObj (a : Addr) : OnRaise O (codeObj a) := by
  refine (onRaise_obj a).bind fun o => ?_
  split
  · exact OnRaise.pure _
  · exact OnRaise.throw_internal _

theorem onRaise_function (a : Addr) : OnRaise O (function a) := by
  refine (onRaise_obj a).bind fun o => ?_
  split
  · exact OnRaise.pure _
  · exact OnRaise.throw_internal _

theorem onRaise_alloc (o : Obj) : OnRaise O (alloc o) := OnRaise.modifyGet _

include hO in
theorem onRaise_bind (fn : Function) (args : Array Value) : OnRaise O (bind fn args) := by
  refine (onRaise_codeObj _).bind fun c => ?_
  dsimp only
  repeat' first
    | exact OnRaise.pure _
    | exact (OnRaise.raise hO _).bind fun _ => OnRaise.pure _
    | exact OnRaise.raise hO _
    | exact (onRaise_alloc _).bind fun _ => OnRaise.pure _
    | refine OnRaise.ite (fun _ => ?_) fun _ => ?_
    | refine OnRaise.bind ?_ fun _ => ?_

theorem onRaise_newFrame (fnAddr : Addr) (args : Array Value) :
    OnRaise O (newFrame fnAddr args) := by
  refine (onRaise_function _).bind fun fn => (onRaise_codeObj _).bind fun c => ?_
  dsimp only
  refine OnRaise.ite (fun _ => (OnRaise.throw_internal _).bind fun _ => ?_) fun _ => ?_ <;>
  · refine (OnRaise.forIn_array
      (fun _ _ => (onRaise_alloc _).bind fun _ => OnRaise.pure _) _ _).bind fun cells => ?_
    refine (OnRaise.forIn_array (fun _ _ => ?_) _ _).bind fun _ => OnRaise.pure _
    split
    · exact (OnRaise.modify _).bind fun _ => OnRaise.pure _
    · exact OnRaise.pure _

include hO in
theorem onRaise_enterActivation : OnRaise O enterActivation :=
  OnRaise.get_bind fun _ =>
    OnRaise.ite (fun _ => (OnRaise.raise hO _).bind fun _ => OnRaise.modify _)
      fun _ => OnRaise.set _

end Primitives

end Vm

namespace Act

open EStateM

variable {k : Kit} {α : Type}

/-- Where an exception let out with the store `h` was raised: new, its traceback still empty, or
inside an activation run by the kit `k` from its start, which let it out with the same store. -/
def Origin (k : Kit) (h : Heap) (a : Addr) : Prop :=
  h.Fresh a ∨ ∃ frame m₁ m₂, Vm.runFrame k frame .start m₁ = .error (.raise a) m₂ ∧ m₂.heap = h

/-- Running a function: counting its activation may raise a new `RecursionError`; what its frame
lets out comes from the activation. -/
theorem onRaise_runFunction (k : Kit) (fn : Addr) (args : Array Value) :
    Vm.OnRaise (Origin k) (Vm.runFunction k fn args) := by
  have hfresh : ∀ h a, h.Fresh a → Origin k h a := fun _ _ => .inl
  refine (Vm.onRaise_enterActivation hfresh).bind fun _ => ?_
  refine (Vm.OnRaise.leaving ((Vm.onRaise_newFrame _ _).bind fun frame => ?_)).bind fun r => ?_
  · exact fun m a m' h => .inr ⟨frame, m, m', h, rfl⟩
  · refine (Vm.OnRaise.modify _).bind fun _ => ?_
    split
    · exact Vm.OnRaise.pure _
    · exact Vm.OnRaise.throw_internal _

/-- Calling a function: binding may raise a new `TypeError`, and a function that does not
suspend runs. -/
theorem onRaise_callFunction (k : Kit) (fn : Addr) (args : Array Value) :
    Vm.OnRaise (Origin k) (Vm.callFunction k fn args) := by
  have hfresh : ∀ h a, h.Fresh a → Origin k h a := fun _ _ => .inl
  refine (Vm.onRaise_function _).bind fun f => (Vm.onRaise_bind hfresh _ _).bind fun bound => ?_
  refine (Vm.onRaise_codeObj _).bind fun c => ?_
  dsimp only
  split
  · exact (Vm.onRaise_alloc _).bind fun _ => Vm.OnRaise.pure _
  · exact onRaise_runFunction k _ _

end Act

/-- A kit whose runs of functions, and calls of values that are functions, let out only
exceptions satisfying `O`. -/
structure Kit.OnRaise (O : Heap → Addr → Prop) (k : Kit) : Prop where
  run : ∀ g args, Vm.OnRaise O (k.run g args)
  call : ∀ {fn : Addr} {f : Function} (args : Array Value) {m : Machine} {a : Addr} {m' : Machine},
    m.heap.get? fn = some (.function f) → k.call (.ref fn) args m = .error (.raise a) m' →
      O m'.heap a

theorem Kit.onRaise_exhausted (O : Heap → Addr → Prop) : Kit.exhausted.OnRaise O :=
  ⟨fun _ _ _ _ _ h => (by cases h), fun {_ _} _ {_ _ _} _ h => by cases h⟩

/-- Below a nesting level, what a call lets out comes from the call or from an activation one
level down. -/
theorem kit_onRaise (n : Nat) : (kit (n + 1)).OnRaise (Act.Origin (kit n)) := by
  refine ⟨fun g args => Act.onRaise_runFunction _ g args, fun {fn f} args {m a m'} hf h => ?_⟩
  have hcall : Vm.callValue (kit n) (.ref fn) args m = Vm.callFunction (kit n) fn args m := by
    simp only [Vm.callValue, Vm.get_bind_run, Heap.deref, hf]
  change Vm.callValue (kit n) (.ref fn) args m = _ at h
  rw [hcall] at h
  exact Act.onRaise_callFunction _ _ _ _ _ _ h


namespace Act

open EStateM

variable {k : Kit} {α β : Type} {O : Heap → Addr → Prop}

/-- Every exception `x` lets out satisfies `O` in the store `x` ends with. -/
def OnRaise (O : Heap → Addr → Prop) (x : Act α) : Prop :=
  ∀ s a s', x s = .error (.raise a) s' → O s'.machine.heap a

namespace OnRaise

variable {x y : Act α} {f : α → Act β}

protected theorem pure (a : α) : OnRaise O (Pure.pure a : Act α) := fun _ _ _ h => nomatch h

protected theorem bind (hx : OnRaise O x) (hf : ∀ a, OnRaise O (f a)) : OnRaise O (x >>= f) := by
  intro s a s' h
  cases hxs : x s with
  | ok b s₁ =>
    rw [run_bind_of_ok hxs] at h
    exact hf b s₁ a s' h
  | error e s₁ =>
    rw [run_bind_of_error hxs] at h
    cases h
    exact hx s a s' hxs

protected theorem ite {c : Prop} [Decidable c] (hx : c → OnRaise O x) (hy : ¬ c → OnRaise O y) :
    OnRaise O (if c then x else y) := by
  split
  · exact hx ‹_›
  · exact hy ‹_›

theorem of_faults (hx : ∀ s e s', x s = .error e s' → ∃ ie, e = .internal ie) : OnRaise O x := by
  intro s a s' h
  obtain ⟨ie, hie⟩ := hx s _ s' h
  cases hie

protected theorem readsMachine (g : Machine → α) : OnRaise O (readsMachine g) :=
  fun _ _ _ h => nomatch h

protected theorem site : OnRaise O site := fun _ _ _ h => nomatch h

protected theorem setSite (st : Site) : OnRaise O (setSite st) := fun _ _ _ h => nomatch h

protected theorem count (g : Stats → Stats) : OnRaise O (count g) := fun _ _ _ h => nomatch h

theorem bind_raise (hx : OnRaise (fun _ _ => False) x) {s u : Active} {a : Addr}
    (h : (x >>= f) s = .error (.raise a) u) :
    ∃ b s₁, x s = .ok b s₁ ∧ f b s₁ = .error (.raise a) u := by
  cases hxs : x s with
  | ok b s₁ => exact ⟨b, s₁, rfl, by rwa [run_bind_of_ok hxs] at h⟩
  | error e s₁ =>
    rw [run_bind_of_error hxs] at h
    cases h
    exact (hx s a _ hxs).elim

end OnRaise

theorem onRaise_callTarget (callable : Value) (argc : Nat) :
    OnRaise O (callTarget callable argc) := by
  unfold callTarget hit settle missAt specializing heap
  repeat' first
    | exact OnRaise.pure _
    | exact OnRaise.readsMachine _
    | exact OnRaise.site
    | exact OnRaise.setSite _
    | exact OnRaise.count _
    | refine OnRaise.ite (fun _ => ?_) fun _ => ?_
    | refine OnRaise.bind ?_ fun _ => ?_
    | split

theorem pop_ok_back {s t : Active} {v : Value} (h : pop s = .ok v t) :
    s.frame.stack.back? = some v := by
  unfold pop at h
  obtain ⟨w, t₁, hpeek, hrest⟩ := ok_of_bind_ok h
  obtain ⟨rfl, hback⟩ := peek_ok hpeek
  rw [modifyFrame_bind_run] at hrest
  cases hrest
  exact hback

/-- A run on the machine, in the frame's exception context, that fails: the context comes back,
and the store is the one the run failed with. -/
theorem withContext_error {x : Vm α} {s u : Active} {e : Fault} (h : withContext x s = .error e u) :
    ∃ m', x { s.machine with context := s.frame.currentHandled } = .error e m' ∧
      u.machine.heap = m'.heap := by
  obtain ⟨m, fr⟩ := s
  simp only [withContext] at h
  split at h
  · cases h
  · next e' m' hx =>
    cases h
    exact ⟨m', hx, rfl⟩

/-- A run in the frame's context whose result is pushed raises what the run raises: the push
fails only internally. -/
theorem withContext_push_raise {x : Vm Value} {s u : Active} {a : Addr}
    (h : (withContext x >>= fun r => push r) s = .error (.raise a) u) :
    ∃ m', x { s.machine with context := s.frame.currentHandled } = .error (.raise a) m' ∧
      u.machine.heap = m'.heap := by
  cases hw : withContext x s with
  | ok r s₁ =>
    rw [run_bind_of_ok hw] at h
    exact (OnRaise.of_faults (O := fun _ _ => False) (blind_push r).faults s₁ a u h).elim
  | error e s₁ =>
    rw [run_bind_of_error hw] at h
    cases h
    exact withContext_error hw

/-- A call of a function from the stack lets out what the kit's run or call of it lets out,
with the store that left; the site's bookkeeping and the change of context raise nothing and
keep the function in the store. -/
theorem callFromStack_onRaise (hk : k.OnRaise O) {argc : Nat} {fn : Addr} {f : Function}
    {s u : Active} {a : Addr}
    (hcallee : (s.frame.stack.shrink (s.frame.stack.size - argc)).back? = some (.ref fn))
    (hfn : s.machine.heap.get? fn = some (.function f))
    (h : callFromStack k argc s = .error (.raise a) u) : O u.machine.heap a := by
  unfold callFromStack at h
  obtain ⟨args, s₁, hpopN, h⟩ := OnRaise.bind_raise (OnRaise.of_faults (blind_popN argc).faults) h
  obtain ⟨-, -, hs₁⟩ := popN_ok_shrinks hpopN
  obtain ⟨callable, s₂, hpop, h⟩ := OnRaise.bind_raise (OnRaise.of_faults blind_pop.faults) h
  have hc : callable = .ref fn := by
    have hback := pop_ok_back hpop
    rw [hs₁] at hback
    exact Option.some.inj (hback.symm.trans hcallee)
  obtain ⟨-, hs₂⟩ := pop_ok hpop
  subst hc
  obtain ⟨direct, s₃, htarget, h⟩ := OnRaise.bind_raise (onRaise_callTarget _ _) h
  have hfn₃ : ∃ f', s₃.machine.heap.get? fn = some (.function f') := by
    have hret := retains_callTarget (.ref fn) argc s₂
    rw [htarget] at hret
    have hm : s₂.machine = s.machine := by rw [hs₂, hs₁]
    have hheap : s.machine.heap.Retains s₃.machine.heap := hm ▸ hret.machine.heap
    exact hheap.function hfn
  obtain ⟨f', hf'⟩ := hfn₃
  cases direct with
  | some g =>
    obtain ⟨m', hx, hheap⟩ := withContext_push_raise h
    rw [hheap]
    exact hk.run g args _ a m' hx
  | none =>
    obtain ⟨m', hx, hheap⟩ := withContext_push_raise h
    rw [hheap]
    exact hk.call (m := { s₃.machine with context := s₃.frame.currentHandled }) args hf' hx

/-- The instruction at the frame's offset calls a function from the stack: `CallFunction`, in its
long or short form, with a function of the store below its arguments. -/
def CallsFunction (t : Active) : Prop :=
  (Opcode.ofByte? (t.frame.unit.byteAt t.frame.pc) = some .callFunction ∨
    ∃ c, Opcode.ofByte? (t.frame.unit.byteAt t.frame.pc) = some (.callArgs c)) ∧
  ∃ fn f, (t.frame.stack.shrink (t.frame.stack.size - t.frame.unit.argcAt t.frame.pc)).back? =
      some (.ref fn) ∧ t.machine.heap.get? fn = some (.function f)

theorem raise_of_bind_pure {x : Act α} {b : β} {s u : Active} {a : Addr}
    (h : (x >>= fun _ => pure b) s = .error (.raise a) u) : x s = .error (.raise a) u := by
  cases hx : x s with
  | ok c s₁ =>
    rw [run_bind_of_ok hx] at h
    cases h
  | error e s₁ =>
    rw [run_bind_of_error hx] at h
    cases h
    rfl

theorem step_onRaise (hk : k.OnRaise O) {t u : Active} {a : Addr} (hcall : CallsFunction t)
    (h : step k t = .error (.raise a) u) : O u.machine.heap a := by
  obtain ⟨hop, fn, f, hcallee, hfn⟩ := hcall
  rcases hop with hop | ⟨c, hop⟩
  · have hargc : t.frame.unit.argcAt t.frame.pc = t.frame.unit.byteAt (t.frame.pc + 1) := by
      simp [CodeUnit.argcAt, hop]
    rw [step_eq_exec k hop] at h
    simp only [exec] at h
    rw [nextByte_bind] at h
    rw [hargc] at hcallee
    exact callFromStack_onRaise (s := t.seenAt t.machine.tuning (t.frame.pc + 1 + 1) t.frame.pc)
      hk hcallee hfn (raise_of_bind_pure h)
  · have hargc : t.frame.unit.argcAt t.frame.pc = c.val := by simp [CodeUnit.argcAt, hop]
    rw [step_eq_exec k hop] at h
    simp only [exec] at h
    rw [hargc] at hcallee
    exact callFromStack_onRaise (s := t.seenAt t.machine.tuning (t.frame.pc + 1) t.frame.pc)
      hk hcallee hfn (raise_of_bind_pure h)

/-! ### The activations an exception leaves -/

theorem failing_unit {n : Nat} {m : Machine} {frame : Frame} {resume : Resume} {s t u : Active}
    {err : Fault} (hs : enterFrame m frame resume = .ok () s) (hr : Runs (kit n) s t)
    (hst : step (kit n) t = .error err u) : u.frame.unit = frame.unit := by
  have h₁ : Active.Steady t u := by
    simpa only [hst, EStateM.Result.state_error] using steady_step (kit_steady n) t
  have hcode : u.frame.code = frame.code := by
    rw [h₁.code, (hr.steady (kit_steady n)).code, enterFrame_code hs]
  exact congrArg CodeObj.unit hcode

/-- Where a run lets an exception out: at the entered frame, for an exception thrown in that no
handler takes, or at an instruction that failed with it after a run of the loop, whose failure
the handler search let go. -/
theorem runFrame_escape {frame : Frame} {resume : Resume} {m m' : Machine} {a : Addr}
    (h : Vm.runFrame k frame resume m = .error (.raise a) m') :
    (resume = .throw a ∧ ∃ v, unwind (.raise a) ⟨m, { frame with inherited := m.context }⟩ =
        .error (.raise a) v ∧ v.machine = m') ∨
      ∃ s t u v, enterFrame m frame resume = .ok () s ∧ Runs k s t ∧
        step k t = .error (.raise a) u ∧ unwind (.raise a) u = .error (.raise a) v ∧
        v.machine = m' := by
  rw [Vm.runFrame_eq] at h
  cases hs : enterFrame m frame resume with
  | error err s =>
    rw [hs] at h
    cases h
    cases resume with
    | start => cases hs
    | send v =>
      obtain ⟨ie, hie⟩ := (blind_push v).faults _ _ _ hs
      cases hie
    | throw exc =>
      rw [enterFrame] at hs
      obtain ⟨hexc, -⟩ := unwind_escapes hs
      cases hexc
      exact .inl ⟨rfl, s, hs, rfl⟩
  | ok _ s =>
    rw [hs] at h
    dsimp only at h
    split at h
    · cases h
    · next e s' hloop =>
      cases h
      obtain ⟨t, u, err, hr, hst, hu⟩ := execLoop_raise hloop
      obtain ⟨rfl, -⟩ := unwind_escapes hu
      exact .inr ⟨s, t, u, s', rfl, hr, hst, hu, rfl⟩

/-- How the exception at `a` left a run of `frame`, from `resume` on `m` with `n` nesting levels
below it, that ended on `m'`: `es` are the entries of the activations it left, innermost first,
and `e` is the exception as it was raised.  Each of those activations failed with the exception
at an instruction that no handler of its unit covers; its entry names the unit and the
instruction's offset. -/
inductive Unwinds : Nat → Frame → Resume → Machine → Addr → Machine → List TraceEntry → Exc → Prop
  /-- Thrown into the frame at the point it was suspended at. -/
  | thrown {n : Nat} {frame : Frame} {m : Machine} {a : Addr} {v : Active} {e : Exc} :
      unwind (.raise a) ⟨m, { frame with inherited := m.context }⟩ = .error (.raise a) v →
      m.heap.get? a = some (.exception e) →
      Unwinds n frame (.throw a) m a v.machine [frame.unit.entryAt frame.instrPc] e
  /-- Raised by the instruction the run failed at; when that instruction calls a function, it
  raised the exception new, before any activation let it out. -/
  | raised {n : Nat} {frame : Frame} {resume : Resume} {m : Machine} {a : Addr} {s t u v : Active}
      {e : Exc} :
      enterFrame m frame resume = .ok () s → Runs (kit n) s t →
      step (kit n) t = .error (.raise a) u → unwind (.raise a) u = .error (.raise a) v →
      u.machine.heap.get? a = some (.exception e) → (CallsFunction t → e.traceback = #[]) →
      Unwinds n frame resume m a v.machine [frame.unit.entryAt u.frame.instrPc] e
  /-- Let out of an activation run by the function call the run failed at. -/
  | called {n : Nat} {frame frame' : Frame} {resume : Resume} {m m₁ m₂ : Machine} {a : Addr}
      {s t u v : Active} {es : List TraceEntry} {e : Exc} :
      enterFrame m frame resume = .ok () s → Runs (kit (n + 1)) s t →
      step (kit (n + 1)) t = .error (.raise a) u → unwind (.raise a) u = .error (.raise a) v →
      CallsFunction t → Vm.runFrame (kit n) frame' .start m₁ = .error (.raise a) m₂ →
      m₂.heap = u.machine.heap → Unwinds n frame' .start m₁ a m₂ es e →
      Unwinds (n + 1) frame resume m a v.machine (es ++ [frame.unit.entryAt u.frame.instrPc]) e

/-- The traceback an exception leaves with is the one it was raised with, followed by the entry of
every activation it left, innermost first, unless equal to the entry before it. -/
theorem Unwinds.traceback {n : Nat} {frame : Frame} {resume : Resume} {m m' : Machine} {a : Addr}
    {es : List TraceEntry} {e₀ : Exc} (hu : Unwinds n frame resume m a m' es e₀) :
    ∃ e, m'.heap.get? a = some (.exception e) ∧
      e.traceback = (es.foldl Exc.pushTrace e₀).traceback := by
  induction hu with
  | thrown hunw he =>
    obtain ⟨-, -, e, e', he₁, he', htb⟩ := unwind_escapes hunw
    obtain rfl : e = _ := by simpa [he] using he₁.symm
    exact ⟨e', he', htb⟩
  | raised hs hr hst hunw he _ =>
    obtain ⟨-, -, e, e', he₁, he', htb⟩ := unwind_escapes hunw
    obtain rfl : e = _ := by simpa [he] using he₁.symm
    refine ⟨e', he', ?_⟩
    rw [htb, Frame.traceEntry, failing_unit hs hr hst]
    rfl
  | called hs hr hst hunw _ _ hheap _ ih =>
    obtain ⟨e₂, he₂, htb₂⟩ := ih
    obtain ⟨-, -, e, e', he₁, he', htb⟩ := unwind_escapes hunw
    obtain rfl : e = e₂ := by simpa [← hheap, he₂] using he₁.symm
    refine ⟨e', he', ?_⟩
    rw [htb, List.foldl_append, List.foldl_cons, List.foldl_nil, Frame.traceEntry,
      failing_unit hs hr hst]
    exact Exc.traceback_pushTrace_congr htb₂ _

/-- An escape unwinds at the instruction it failed at, unless that instruction called a function
and the exception is not new there. -/
theorem unwinds_or_calls {n : Nat} {frame : Frame} {resume : Resume} {m m' : Machine} {a : Addr}
    (h : Vm.runFrame (kit n) frame resume m = .error (.raise a) m') :
    (∃ es e, Unwinds n frame resume m a m' es e) ∨
      ∃ s t u v, enterFrame m frame resume = .ok () s ∧ Runs (kit n) s t ∧
        step (kit n) t = .error (.raise a) u ∧ unwind (.raise a) u = .error (.raise a) v ∧
        v.machine = m' ∧ CallsFunction t ∧ ¬ u.machine.heap.Fresh a := by
  rcases runFrame_escape h with ⟨rfl, v, hunw, rfl⟩ | ⟨s, t, u, v, hs, hr, hst, hunw, rfl⟩
  · obtain ⟨-, -, e, -, he, -⟩ := unwind_escapes hunw
    exact .inl ⟨_, e, .thrown hunw he⟩
  · obtain ⟨-, -, e, -, he, -⟩ := unwind_escapes hunw
    by_cases hcf : CallsFunction t ∧ ¬ u.machine.heap.Fresh a
    · exact .inr ⟨s, t, u, v, hs, hr, hst, hunw, rfl, hcf⟩
    · refine .inl ⟨_, e, .raised hs hr hst hunw he fun hc => ?_⟩
      obtain ⟨e', he', htb⟩ := not_not.1 (not_and.1 hcf hc)
      obtain rfl : e = e' := by simpa [he] using he'
      exact htb

/-- Every exception that leaves an activation unwinds through it: by induction on the nesting
levels, an exception let out of a call comes out of the activation one level down. -/
theorem unwinds_of_escape (n : Nat) {frame : Frame} {resume : Resume} {m m' : Machine} {a : Addr}
    (h : Vm.runFrame (kit n) frame resume m = .error (.raise a) m') :
    ∃ es e, Unwinds n frame resume m a m' es e := by
  induction n generalizing frame resume m m' with
  | zero =>
    rcases unwinds_or_calls h with hu | ⟨s, t, u, v, -, -, hst, -, -, hc, -⟩
    · exact hu
    · exact (step_onRaise (Kit.onRaise_exhausted fun _ _ => False) hc hst).elim
  | succ n ih =>
    rcases unwinds_or_calls h with hu | ⟨s, t, u, v, hs, hr, hst, hunw, rfl, hc, hnew⟩
    · exact hu
    rcases step_onRaise (kit_onRaise n) hc hst with hfresh | ⟨frame', m₁, m₂, hrun, hheap⟩
    · exact (hnew hfresh).elim
    obtain ⟨es, e, hin⟩ := ih hrun
    exact ⟨_, e, .called hs hr hst hunw hc hrun hheap hin⟩

/-- Tracebacks record every activation an exception leaves.  An exception that leaves a run of a
frame unwinds through it, one entry for each activation it left, innermost first, each naming the
activation's unit and the offset of the instruction that raised the exception or made the call
it came out of, with that offset's line.  Its traceback is the one it had where it was raised,
followed by those entries, an entry equal to the one before it being recorded once; an exception
raised new, through activations no two neighbours of which give the same entry, has exactly
those entries. -/
theorem escaping_exception_traceback {n : Nat} {frame : Frame} {resume : Resume} {m m' : Machine}
    {a : Addr} (h : Vm.runFrame (kit n) frame resume m = .error (.raise a) m') :
    ∃ es e₀, Unwinds n frame resume m a m' es e₀ ∧
      ∃ e, m'.heap.get? a = some (.exception e) ∧
        e.traceback = (es.foldl Exc.pushTrace e₀).traceback ∧
        (e₀.traceback = #[] → es.IsChain (· ≠ ·) → e.traceback = es.toArray) := by
  obtain ⟨es, e₀, hu⟩ := unwinds_of_escape n h
  obtain ⟨e, he, htb⟩ := hu.traceback
  refine ⟨es, e₀, hu, e, he, htb, fun h₀ hchain => ?_⟩
  have hfold := @Exc.traceback_foldl_pushTrace e₀ es (by simpa [h₀] using hchain)
  rw [htb, hfold, h₀, Array.empty_append]

/-- `f(None)` raises the `TypeError` of calling `None`, which leaves the activation with its
entry. -/
theorem selfCaller_escape_traceback :
    let r := Vm.runFrame (kit 1) selfCallerFrame .start selfCallerMachine
    r = .error (.raise 3) r.state ∧
      ∃ es e₀, Unwinds 1 selfCallerFrame .start selfCallerMachine 3 r.state es e₀ ∧
        ∃ e, r.state.heap.get? 3 = some (.exception e) ∧
          e.traceback = (es.foldl Exc.pushTrace e₀).traceback ∧
          (e₀.traceback = #[] → es.IsChain (· ≠ ·) → e.traceback = es.toArray) :=
  have h : Vm.runFrame (kit 1) selfCallerFrame .start selfCallerMachine =
      .error (.raise 3) (Vm.runFrame (kit 1) selfCallerFrame .start selfCallerMachine).state := by
    rfl
  ⟨h, escaping_exception_traceback h⟩

end Act

end StackVm
