import StackVm.Proofs.Activation.Traceback
import StackVm.Proofs.Engine.Chain
import StackVm.Proofs.Loop.Interpreted

/-! The implicit context of an exception.  An exception raised by `raise` or `raise … from`,
and one that reaches the handler search with no context, is chained to the exception its
activation is handling: the exception of the innermost handler entered and not yet left, or,
with none, the exception the caller was handling when it entered the activation.  Chaining
sets that exception as the context, unless it is the raised one or already leads to it through
context and cause links; an exception that has a context keeps it through the handler search,
also when it passes on to the caller.

The caller's exception is the context of the machine the activation is entered on: a call-out
runs under its frame's handled exception (`Act.withContext`), every operation of the engine
gives the machine's context back (`Kit.Steady`), and entering a frame makes the machine's
context the frame's inherited one, which no instruction of the activation changes
(`Active.Steady`). -/

namespace StackVm

namespace Heap

/-- A path to `w` that ends at its first visit leaves `w` by no edge, so changing the edges out
of `w` changes nothing about what reaches `w` from elsewhere. -/
theorem transGen_to_of_agree {α : Type} {R R' : α → α → Prop} {w : α}
    (hagree : ∀ a b, a ≠ w → R a b → R' a b) {x : α} (hx : x ≠ w)
    (h : Relation.TransGen R x w) : Relation.TransGen R' x w := by
  revert hx
  induction h using Relation.TransGen.head_induction_on with
  | single hr => exact fun hx => .single (hagree _ _ hx hr)
  | @head a c hac _ ih =>
    intro ha
    by_cases hc : c = w
    · subst hc
      exact .single (hagree _ _ ha hac)
    · exact .head (hagree _ _ ha hac) (ih hc)

end Heap

namespace Vm

/-- Whether an exception other than `this` reaches `this` does not depend on the links out of
`this`. -/
theorem chainReaches_congr {h h' : Heap} {this x : Addr}
    (hlinks : ∀ a, a ≠ this → links h' a = links h a) (hx : x ≠ this) :
    chainReaches h' x this = chainReaches h x this := by
  have hagree : ∀ {h₁ h₂ : Heap}, (∀ a, a ≠ this → links h₂ a = links h₁ a) →
      ∀ a b, a ≠ this → h₁.Link a b → h₂.Link a b := by
    intro h₁ h₂ hl a b ha hab
    unfold Heap.Link
    rw [hl a ha]
    exact hab
  rw [Bool.eq_iff_iff, chainReaches_iff, chainReaches_iff]
  exact ⟨Heap.transGen_to_of_agree (hagree fun a ha => (hlinks a ha).symm) hx,
    Heap.transGen_to_of_agree (hagree hlinks) hx⟩

theorem chainedContext_congr {h h' : Heap} {this : Addr}
    (hlinks : ∀ a, a ≠ this → links h' a = links h a) (handled c : Option Addr) :
    chainedContext h' this handled c = chainedContext h this handled c := by
  cases handled with
  | none => rfl
  | some hd =>
    by_cases hhd : hd = this
    · subst hhd
      simp only [chainedContext, beq_self_eq_true, Bool.true_or, ↓reduceIte]
    · simp only [chainedContext, chainReaches_congr hlinks hhd]

theorem excOfValue_ref {m : Machine} {a : Addr} {e : Exc}
    (he : m.heap.get? a = some (.exception e)) : excOfValue (.ref a) m = .ok a m := by
  unfold excOfValue
  rw [get_bind_run]
  simp only [Heap.deref, he]
  rfl

end Vm

/-- The exception a frame of an activation entered on `m` handles: that of its innermost handler
not yet left, else the one the caller was handling when it entered the activation. -/
def Frame.handledUnder (f : Frame) (m : Machine) : Option Addr :=
  (f.handled.back?.map Handled.exc).or m.context

theorem Frame.currentHandled_of_inherited {f : Frame} {m : Machine} (h : f.inherited = m.context) :
    f.currentHandled = f.handledUnder m := by
  unfold currentHandled handledUnder
  cases f.handled.back? with
  | none => exact h
  | some hd => rfl

namespace Exc

@[simp] theorem context_pushTrace (e : Exc) (t : TraceEntry) :
    (e.pushTrace t).context = e.context := by
  unfold pushTrace
  split <;> rfl

end Exc

namespace Act

open EStateM

/-- The handler search chains an exception that has no context to the frame's handled
exception, and leaves the context of any other as it is. -/
theorem unwind_context {u : Active} {E : Addr} {e : Exc}
    (he : u.machine.heap.get? E = some (.exception e)) :
    ∃ e', (unwind (.raise E) u).state.machine.heap.get? E = some (.exception e') ∧
      e'.context = if e.context.isNone then
        Vm.chainedContext u.machine.heap E u.frame.currentHandled e.context else e.context := by
  refine ⟨_, (unwind_raise he).1, ?_⟩
  rw [Exc.context_pushTrace]
  split <;> rfl

theorem raiseChained_exc {α : Type} {s : Active} {E : Addr} {e : Exc}
    (he : s.machine.heap.get? E = some (.exception e)) :
    ∃ m', (raiseChained E : Act α) s = .error (.raise E) ⟨m', s.frame⟩ ∧
      m'.heap.get? E = some (.exception { e with
        context := Vm.chainedContext s.machine.heap E s.frame.currentHandled e.context }) := by
  obtain ⟨m', hc, he', -⟩ := Vm.chainContext_exc s.frame.currentHandled he
  refine ⟨m', ?_, he'⟩
  rw [raiseChained, reads_bind_run, vm_bind_run_of_ok hc]
  rfl

theorem step_raise (k : Kit) {t : Active} {st : Array Value} {E : Addr} {e : Exc}
    (hop : Opcode.ofByte? (t.frame.unit.byteAt t.frame.pc) = some .raise)
    (hst : t.frame.stack = st.push (.ref E)) (he : t.machine.heap.get? E = some (.exception e)) :
    ∃ u, step k t = .error (.raise E) u ∧
      u.frame = { t.frame with instrPc := t.frame.pc, pc := t.frame.pc + 1, stack := st } ∧
      u.machine.heap.get? E = some (.exception { e with
        context := Vm.chainedContext t.machine.heap E t.frame.currentHandled e.context }) := by
  obtain ⟨m', hr, he'⟩ := raiseChained_exc (α := StepResult)
    (s := ⟨t.machine, { t.frame with instrPc := t.frame.pc, pc := t.frame.pc + 1, stack := st }⟩) he
  refine ⟨⟨m', { t.frame with instrPc := t.frame.pc, pc := t.frame.pc + 1, stack := st }⟩, ?_, rfl,
    he'⟩
  have hstep := step_seenAt t t.machine.tuning t.frame.pc t.frame.instrPc k hop
  rw [Active.seenAt_self] at hstep
  rw [hstep, Active.eq_withStack (s := t.seenAt t.machine.tuning (t.frame.pc + 1) t.frame.pc) hst]
  show (pop >>= fun v => vm (Vm.excOfValue v) >>= fun exc => raiseChained exc) _ = _
  rw [run_bind_of_ok (pop_push _ _ _),
    vm_bind_run_of_ok (s := (t.seenAt t.machine.tuning (t.frame.pc + 1) t.frame.pc).withStack st)
      (Vm.excOfValue_ref he)]
  exact hr

/-- `raise E from C` pops the cause and the exception, records the cause unless it is the
exception or leads back to it, suppresses the context, and fails with the exception, chained
to the frame's handled exception.  The cause operand is `None` or an exception. -/
theorem step_raiseFrom (k : Kit) {t : Active} {st : Array Value} {E : Addr} {e : Exc}
    {cv : Value} {cause : Option Addr}
    (hop : Opcode.ofByte? (t.frame.unit.byteAt t.frame.pc) = some .raiseFrom)
    (hst : t.frame.stack = (st.push (.ref E)).push cv)
    (he : t.machine.heap.get? E = some (.exception e))
    (hcause : cv = .none ∧ cause = none ∨
      ∃ c, cv = .ref c ∧ cause = some c ∧ t.machine.heap.IsExc c) :
    ∃ u, step k t = .error (.raise E) u ∧
      u.frame = { t.frame with instrPc := t.frame.pc, pc := t.frame.pc + 1, stack := st } ∧
      u.machine.heap.get? E = some (.exception { e with
        context := Vm.chainedContext t.machine.heap E t.frame.currentHandled e.context,
        cause := cause.filter fun c => !(c == E || Vm.chainReaches t.machine.heap c E),
        suppressContext := true }) := by
  have hstep := step_seenAt t t.machine.tuning t.frame.pc t.frame.instrPc k hop
  rw [Active.seenAt_self] at hstep
  set w := t.seenAt t.machine.tuning (t.frame.pc + 1) t.frame.pc
  let record : Exc → Exc := fun x => { x with
    suppressContext := true,
    cause := cause.filter fun c => !(c == E || Vm.chainReaches t.machine.heap c E) }
  let m₁ : Machine := { t.machine with heap := t.machine.heap.modify E (Obj.mapExc record) }
  have he₁ : m₁.heap.get? E = some (.exception (record e)) := by
    rw [Heap.get?_modify_eq, if_pos rfl, he]
    rfl
  obtain ⟨m', hr, he'⟩ := raiseChained_exc (α := StepResult) (s := ⟨m₁, (w.withStack st).frame⟩) he₁
  refine ⟨⟨m', (w.withStack st).frame⟩, ?_, rfl, ?_⟩
  · rw [hstep, Active.eq_withStack (s := w) hst]
    show (raiseFrom : Act StepResult) _ = _
    unfold raiseFrom
    rw [run_bind_of_ok (pop_push _ _ _), run_bind_of_ok (pop_push _ _ _),
      vm_bind_run_of_ok (s := w.withStack st) (Vm.excOfValue_ref he)]
    rcases hcause with ⟨rfl, rfl⟩ | ⟨c, rfl, rfl, ce, hce⟩
    · rw [if_pos (show Value.none.isNone = true from rfl)]
      exact hr
    · rw [if_neg (show ¬ (Value.ref c).isNone = true from Bool.false_ne_true)]
      have hmap : (some <$> vm (Vm.excOfValue (.ref c)) : Act (Option Addr)) (w.withStack st) =
          .ok (some c) (w.withStack st) := by
        show EStateM.map some (vm (Vm.excOfValue (.ref c))) (w.withStack st) = _
        simp only [EStateM.map, vm_of_ok (s := w.withStack st) (Vm.excOfValue_ref hce)]
      rw [run_bind_of_ok hmap]
      exact hr
  · rw [Vm.chainedContext_congr (h := t.machine.heap) fun a ha => Vm.links_modify_ne (Ne.symm ha)]
      at he'
    exact he'

/-! ### The context rules of an activation -/

/-- The handler search at `u`, in an activation entered on `m`, chains an exception that has no
context to the exception the frame handles, and leaves any other context as it is. -/
def SearchChains (m : Machine) (u : Active) : Prop :=
  ∀ E e, u.machine.heap.get? E = some (.exception e) →
    ∃ e', (unwind (.raise E) u).state.machine.heap.get? E = some (.exception e') ∧
      e'.context = if e.context.isNone then
        Vm.chainedContext u.machine.heap E (u.frame.handledUnder m) e.context else e.context

/-- How the instruction at a state `t` of an activation entered on `m` chains what it raises:
`raise E` chains `E` to the exception the frame handles, `raise E from C` does so after
recording the cause and suppressing the context, and the handler search after any failure
chains as `SearchChains` says. -/
structure ChainsAt (k : Kit) (m : Machine) (t : Active) : Prop where
  raise : ∀ (st : Array Value) E e,
    Opcode.ofByte? (t.frame.unit.byteAt t.frame.pc) = some .raise →
    t.frame.stack = st.push (.ref E) → t.machine.heap.get? E = some (.exception e) →
    ∃ u, step k t = .error (.raise E) u ∧ u.machine.heap.get? E = some (.exception
      { e with context := Vm.chainedContext t.machine.heap E (t.frame.handledUnder m) e.context })
  raiseFrom : ∀ (st : Array Value) E e cv cause,
    Opcode.ofByte? (t.frame.unit.byteAt t.frame.pc) = some .raiseFrom →
    t.frame.stack = (st.push (.ref E)).push cv → t.machine.heap.get? E = some (.exception e) →
    (cv = .none ∧ cause = none ∨ ∃ c, cv = .ref c ∧ cause = some c ∧ t.machine.heap.IsExc c) →
    ∃ u, step k t = .error (.raise E) u ∧ u.machine.heap.get? E = some (.exception { e with
      context := Vm.chainedContext t.machine.heap E (t.frame.handledUnder m) e.context,
      cause := cause.filter fun c => !(c == E || Vm.chainReaches t.machine.heap c E),
      suppressContext := true })
  search : ∀ err u, step k t = .error err u → SearchChains m u

/-- The handler search follows the rule at every state whose frame inherited the context of
`m`. -/
theorem searchChains_of_inherited {m : Machine} {u : Active} (h : u.frame.inherited = m.context) :
    SearchChains m u := by
  intro E e he
  rw [← Frame.currentHandled_of_inherited h]
  exact unwind_context he

/-- Entering a frame makes the machine's context its inherited one, and no instruction of the
activation changes it. -/
theorem Runs.inherited {n : Nat} {m : Machine} {frame : Frame} {resume : Resume} {s t : Active}
    (hs : enterFrame m frame resume = .ok () s) (hr : Runs (kit n) s t) :
    t.frame.inherited = m.context := by
  have h₁ := steady_enterFrame m frame resume
  rw [hs] at h₁
  exact (hr.steady (kit_steady n)).inherited.trans h₁.inherited

theorem chainsAt_of_runs {n : Nat} {m : Machine} {frame : Frame} {resume : Resume} {s t : Active}
    (hs : enterFrame m frame resume = .ok () s) (hr : Runs (kit n) s t) : ChainsAt (kit n) m t := by
  have hinh := hr.inherited hs
  have hX := Frame.currentHandled_of_inherited hinh
  refine ⟨fun st E e hop hst he => ?_, fun st E e cv cause hop hst he hc => ?_,
    fun err u hstep => ?_⟩
  · obtain ⟨u, h, -, hu⟩ := step_raise (kit n) hop hst he
    exact ⟨u, h, hX ▸ hu⟩
  · obtain ⟨u, h, -, hu⟩ := step_raiseFrom (kit n) hop hst he hc
    exact ⟨u, h, hX ▸ hu⟩
  · have htu : Active.Steady t u := by
      simpa only [hstep, EStateM.Result.state_error] using steady_step (kit_steady n) t
    exact searchChains_of_inherited (htu.inherited.trans hinh)

/-- The implicit context of an exception follows the innermost handler of its activation, and
across activations the handler of the caller.  In an activation entered on `m`, both where an
exception is thrown in and at every state of its instruction loop, `raise` and
`raise … from` chain the exception they raise, and the handler search an exception that has no
context, to the exception of the innermost handler not yet left, else to the context of `m`,
which is the exception the caller was handling at the call-out that entered the activation;
chaining leaves the context as it was when that exception is the raised one or leads to it.
An exception that has a context keeps it through the search. -/
theorem implicit_context_follows_innermost_handler (n : Nat) (m : Machine) (frame : Frame)
    (resume : Resume) :
    SearchChains m ⟨m, { frame with inherited := m.context }⟩ ∧
      ∀ s t, enterFrame m frame resume = .ok () s → Runs (kit n) s t → ChainsAt (kit n) m t :=
  ⟨searchChains_of_inherited rfl, fun _ _ hs hr => chainsAt_of_runs hs hr⟩

/-- The context rules at the entry of the self-calling function. -/
theorem selfCaller_chains_at_entry :
    let s : Active :=
      ⟨selfCallerMachine, { selfCallerFrame with inherited := selfCallerMachine.context }⟩
    enterFrame selfCallerMachine selfCallerFrame .start = .ok () s ∧ Runs (kit 1) s s ∧
      ChainsAt (kit 1) selfCallerMachine s :=
  ⟨rfl, .refl, (implicit_context_follows_innermost_handler 1 _ _ .start).2 _ _ rfl .refl⟩

end Act

end StackVm
