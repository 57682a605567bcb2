import StackVm.Proofs.Steady.Step

/-! The engine gives back its bookkeeping on every exit.  An activation counts one level on the
way in (`Vm.enterActivation`, which refuses at the limit with a `RecursionError` and nothing
counted) and one level less on every way out: a run that finishes, fails, or fails to make its
frame.  Between the two it runs instructions, which are steady; so are the builtins, the bound
methods and the resumption of generators, and every operation the engine offers from outside a
frame, whatever its outcome.  Every kit the engine hands down is steady, by induction on the
nesting levels left. -/

namespace StackVm

open EStateM (Keeps)

namespace Act

/-- How `Vm.runFrame` enters a frame on a machine: the frame inherits the machine's exception
context, and the resumption is applied to it. -/
def enterFrame (m : Machine) (frame : Frame) : Resume → EStateM.Result Fault Active Unit
  | .start => .ok () ⟨m, { frame with inherited := m.context }⟩
  | .send v => push v ⟨m, { frame with inherited := m.context }⟩
  | .throw exc => unwind (.raise exc) ⟨m, { frame with inherited := m.context }⟩

theorem steady_enterFrame (m : Machine) (frame : Frame) (resume : Resume) :
    Active.Steady ⟨m, { frame with inherited := m.context }⟩ (enterFrame m frame resume).state := by
  cases resume with
  | start => exact refl_of _ _
  | send v => exact steady_push v _
  | throw exc => exact steady_unwind (.raise exc) _

end Act

/-- Leaving after a steady stretch ends one level up from where the stretch began, in its
context. -/
theorem Machine.Steady.leave {m m' m'' : Machine} (h₁ : m.Steady m')
    (h₂ : Machine.Steady { m' with depth := m'.depth - 1 } m'') :
    Machine.Steady { m with depth := m.depth - 1 } m'' :=
  ⟨h₂.depth.trans (congrArg (· - 1) h₁.depth), h₂.context.trans h₁.context⟩

namespace Vm

variable {α β : Type} {k : Kit}

theorem get_bind_run (f : Machine → Vm α) (m : Machine) : (get >>= f) m = f m m := rfl

/-! ### Entering and leaving activations -/

theorem enterActivation_of_le {m : Machine} (h : m.config.maxDepth ≤ m.depth) :
    enterActivation m = (raise Raise.recursion : Vm Unit) m := by
  unfold enterActivation
  rw [get_bind_run, if_pos h]
  rfl

theorem enterActivation_of_lt {m : Machine} (h : m.depth < m.config.maxDepth) :
    enterActivation m = .ok () { m with depth := m.depth + 1 } := by
  unfold enterActivation
  rw [get_bind_run, if_neg (Nat.not_le.mpr h)]
  rfl

/-- Run one activation deep, `y` leaves that activation on every path: it ends one level up, in
the context it started in. -/
def Leaves (y : Vm α) : Prop :=
  ∀ m : Machine, Machine.Steady { m with depth := m.depth - 1 } (y m).state

namespace Leaves

theorem leave_bind {f : Unit → Vm α} (hf : Steady (f ())) : Leaves (leaveActivation >>= f) :=
  fun _ => hf _

theorem bind_total {x : Vm α} {f : α → Vm β} (hx : Steady x)
    (htot : ∀ m, ∃ a m', x m = .ok a m') (hf : ∀ a, Leaves (f a)) : Leaves (x >>= f) := by
  intro m
  obtain ⟨a, m', hxm⟩ := htot m
  have h₁ : m.Steady m' := by simpa only [hxm, EStateM.Result.state_ok] using hx m
  rw [EStateM.run_bind_of_ok hxm]
  have h₂ := hf a m'
  exact h₁.leave h₂

theorem catch_bind {x : Vm α} {g : Fault → Vm α} {f : α → Vm β} (hx : Steady x)
    (hg : ∀ e, Steady (g e)) (hfail : ∀ e m, ∃ e' m', g e m = .error e' m')
    (hf : ∀ a, Leaves (f a)) :
    Leaves (tryCatch x (fun e => leaveActivation >>= fun _ => g e) >>= f) := by
  intro m
  have h₁ := hx m
  cases hxm : x m with
  | ok a m' =>
    rw [hxm] at h₁
    rw [EStateM.run_bind_of_ok (EStateM.run_tryCatch_of_ok hxm)]
    have h₂ := hf a m'
    exact h₁.leave h₂
  | error e m' =>
    rw [hxm] at h₁
    obtain ⟨e', m'', hgm⟩ := hfail e { m' with depth := m'.depth - 1 }
    have hrun : tryCatch x (fun e => leaveActivation >>= fun _ => g e) m = .error e' m'' := by
      rw [EStateM.run_tryCatch_of_error hxm]
      exact hgm
    have h₂ := hg e { m' with depth := m'.depth - 1 }
    rw [hgm] at h₂
    rw [EStateM.run_bind_of_error hrun]
    exact h₁.leave h₂

end Leaves

theorem steady_enter_bind {y : Vm α} (hy : Leaves y) : Steady (enterActivation >>= fun _ => y) := by
  intro m
  by_cases hd : m.config.maxDepth ≤ m.depth
  · rw [EStateM.run_bind_of_error (enterActivation_of_le hd)]
    exact ⟨rfl, rfl⟩
  · rw [EStateM.run_bind_of_ok (enterActivation_of_lt (Nat.lt_of_not_le hd))]
    have h := hy { m with depth := m.depth + 1 }
    exact ⟨h.depth, h.context⟩

theorem steady_tryEnter_bind {h : Fault → Vm Unit} {y : Vm α} (hh : ∀ e, Steady (h e))
    (hfail : ∀ e m, ∃ e' m', h e m = .error e' m') (hy : Leaves y) :
    Steady (tryCatch enterActivation h >>= fun _ => y) := by
  intro m
  by_cases hd : m.config.maxDepth ≤ m.depth
  · have hrefused := enterActivation_of_le hd
    have h₁ : m.Steady (enterActivation m).state := by
      rw [hrefused]
      exact steady_raise _ m
    cases he : enterActivation m with
    | ok u m' =>
      rw [hrefused] at he
      cases he
    | error e m' =>
      rw [he] at h₁
      obtain ⟨e', m'', hhm⟩ := hfail e m'
      have h₂ := hh e m'
      rw [hhm] at h₂
      rw [EStateM.run_bind_of_error (by rw [EStateM.run_tryCatch_of_error he]; exact hhm)]
      exact trans_of _ h₁ h₂
  · rw [EStateM.run_bind_of_ok (EStateM.run_tryCatch_of_ok (enterActivation_of_lt (Nat.lt_of_not_le hd)))]
    have h := hy { m with depth := m.depth + 1 }
    exact ⟨h.depth, h.context⟩

/-! ### Frames and functions -/

theorem steady_loop (hk : k.Steady) {m : Machine} {s : Active} (hs : m.Steady s.machine) :
    m.Steady (match Act.execLoop k stepBudget s with
      | .ok e s => (.ok (e, s.frame) s.machine : EStateM.Result Fault Machine (FrameExit × Frame))
      | .error e s => .error e s.machine).state := by
  have h := Act.steady_execLoop hk stepBudget s
  split
  · next e t ht =>
    rw [ht] at h
    exact trans_of _ hs h.machine
  · next e t ht =>
    rw [ht] at h
    exact trans_of _ hs h.machine

theorem runFrame_eq (k : Kit) (frame : Frame) (resume : Resume) (m : Machine) :
    runFrame k frame resume m =
      match Act.enterFrame m frame resume with
      | .error e s => .error e s.machine
      | .ok () s =>
        match Act.execLoop k stepBudget s with
        | .ok e s => .ok (e, s.frame) s.machine
        | .error e s => .error e s.machine := by
  cases resume <;> rfl

theorem steady_runFrame (hk : k.Steady) (frame : Frame) (resume : Resume) :
    Steady (runFrame k frame resume) := by
  intro m
  have h := Act.steady_enterFrame m frame resume
  rw [runFrame_eq]
  split
  · next e s hs =>
    rw [hs] at h
    exact h.machine
  · next s hs =>
    rw [hs] at h
    exact steady_loop hk h.machine

theorem steady_runFunction (hk : k.Steady) (fn : Addr) (args : Array Value) :
    Steady (runFunction k fn args) := by
  refine steady_enter_bind (Leaves.catch_bind ((steady_newFrame fn args).bind fun f =>
    steady_runFrame hk f .start) (fun _ => Keeps.throw _) (fun _ _ => ⟨_, _, rfl⟩) fun r => ?_)
  refine Leaves.leave_bind ?_
  split
  · exact Keeps.pure _
  · exact steady_internal _

theorem steady_callFunction (hk : k.Steady) (fnAddr : Addr) (args : Array Value) :
    Steady (callFunction k fnAddr args) := by
  refine (steady_function _).bind fun fn => (steady_bind _ _).bind fun bound => ?_
  refine (steady_codeObj _).bind fun c => ?_
  dsimp only
  split
  · exact (steady_alloc _).bind fun _ => Keeps.pure _
  · exact steady_runFunction hk _ _

/-! ### Generators -/

theorem tryCatch_pure_total (x : Vm α) (h : Fault → α) (m : Machine) :
    ∃ a m', tryCatch x (fun e => pure (h e)) m = .ok a m' := by
  cases hx : x m with
  | ok a m' => exact ⟨a, m', EStateM.run_tryCatch_of_ok hx⟩
  | error e m' => exact ⟨h e, m', EStateM.run_tryCatch_of_error hx⟩

theorem steady_alreadyExecuting (kind : GeneratorKind) : Steady (alreadyExecuting kind : Vm α) :=
  steady_raiseKind _ _ _

theorem steady_resumeGenerator (hk : k.Steady) (g : Addr) (resume : Resume) :
    Steady (resumeGenerator k g resume) := by
  unfold resumeGenerator
  refine (steady_generator g).bind fun st => (Keeps.pure _).bind fun p => ?_
  obtain ⟨kind, fnAddr, baseArgs, started, running, finished, parked⟩ := p
  dsimp only
  repeat' with_reducible first
    | exact Keeps.pure _
    | exact Keeps.throw _
    | exact steady_alreadyExecuting _
    | exact steady_exhaustedSignal _
    | exact steady_throwUnstarted _ _ _
    | exact steady_raiseMsg _ _
    | exact steady_modifyGenerator _ _
    | exact steady_wrapEscaping _ _
    | refine steady_tryEnter_bind (fun _ => ?_) (fun _ _ => ⟨_, _, rfl⟩) ?_
    | refine Leaves.leave_bind ?_
    | refine Leaves.catch_bind (steady_newFrame _ _) (fun _ => ?_) (fun _ _ => ⟨_, _, rfl⟩)
        fun _ => ?_
    | refine Leaves.bind_total (steady_modifyGenerator _ _) (fun _ => ⟨_, _, rfl⟩) fun _ => ?_
    | refine Leaves.bind_total (((steady_runFrame hk _ _).map _).tryCatch fun _ => Keeps.pure _)
        (tryCatch_pure_total _ _) fun _ => ?_
    | refine Keeps.ite (fun _ => ?_) fun _ => ?_
    | refine Keeps.bind ?_ fun _ => ?_
    | rw [bind_assoc]
    | rw [pure_bind]
    | split

theorem steady_nextValue (hk : k.Steady) (v : Value) : Steady (nextValue k v) := by
  refine Keeps.get_bind fun m => ?_
  dsimp only
  split
  · exact Ops.steady_iterNext _ _
  · refine Keeps.ite (fun _ => Keeps.pure _) fun _ => (steady_resumeGenerator hk _ _).bind fun r => ?_
    split
    · exact Keeps.pure _
    · exact Keeps.pure _
  · exact steady_raiseMsg _ _

theorem steady_iterate (hk : k.Steady) (v : Value) : Steady (iterate k v) :=
  steady_iterateWith (steady_nextValue hk) v

theorem steady_resumeSignal (hk : k.Steady) (g : Addr) (resume : Resume) (kind : GeneratorKind) :
    Steady (do
      match ← resumeGenerator k g resume with
      | .yielded x => pure x
      | .returned x => completionSignal kind x) := by
  refine (steady_resumeGenerator hk g resume).bind fun r => ?_
  split
  · exact Keeps.pure _
  · exact steady_completionSignal _ _

theorem steady_generatorSend (hk : k.Steady) (g : Addr) (v : Value) :
    Steady (generatorSend k g v) :=
  (steady_generator g).bind fun _ => steady_resumeSignal hk g _ _

theorem steady_generatorThrow (hk : k.Steady) (g : Addr) (v : Value) :
    Steady (generatorThrow k g v) :=
  (steady_excOfValue v).bind fun _ => (steady_modifyExc _ _).bind fun _ =>
    (steady_generator g).bind fun _ => steady_resumeSignal hk g _ _

theorem steady_closeGenerator (hk : k.Steady) (g : Addr) : Steady (closeGenerator k g) := by
  unfold closeGenerator
  refine (steady_generator g).bind fun st => ?_
  dsimp only
  repeat' with_reducible first
    | exact Keeps.pure _
    | exact Keeps.throw _
    | exact steady_alreadyExecuting _
    | exact steady_modifyGenerator _ _
    | exact steady_newExc _
    | exact steady_exc _
    | exact steady_raiseKind _ _ _
    | exact ((steady_resumeGenerator hk _ _).map _).tryCatch fun _ => Keeps.pure _
    | refine Keeps.ite (fun _ => ?_) fun _ => ?_
    | refine Keeps.bind ?_ fun _ => ?_
    | split

/-! ### Natives and calls -/

theorem steady_callBuiltin (hk : k.Steady) (b : Builtin) (args : Array Value) :
    Steady (callBuiltin k b args) := by
  unfold callBuiltin
  dsimp only
  cases b
  all_goals
    dsimp only
    repeat' with_reducible first
      | exact Keeps.pure _
      | exact steady_arity _ _ _ _
      | exact steady_ofExcept _
      | exact steady_raiseMsg _ _
      | exact steady_raise _
      | exact steady_alloc _
      | exact steady_list _
      | exact steady_tuple _
      | exact steady_int _
      | exact steady_str _
      | exact steady_iterate hk _
      | exact steady_nextValue hk _
      | exact Ops.steady_getIter _
      | exact Keeps.mapM_array steady_rangeBound _
      | exact Keeps.foldlM_array (fun _ _ => Ops.steady_binary _ _ _) _ _
      | refine Keeps.get_bind fun _ => ?_
      | refine Keeps.ite (fun _ => ?_) fun _ => ?_
      | refine Keeps.bind ?_ fun _ => ?_
      | split

theorem steady_callNative (hk : k.Steady) (n : Native) (args : Array Value) :
    Steady (callNative k n args) := by
  unfold callNative
  dsimp only
  cases n
  all_goals
    dsimp only
    repeat' with_reducible first
      | exact Keeps.pure _
      | exact steady_callBuiltin hk _ _
      | exact steady_exactArity _ _ _
      | exact steady_modifyObj _ _
      | exact steady_iterate hk _
      | exact steady_listItems _
      | exact steady_dictEntries _
      | exact steady_ofExcept _
      | exact steady_raiseMsg _ _
      | exact steady_list _
      | exact Keeps.mapM_array (fun _ => steady_tuple _) _
      | exact steady_generatorSend hk _ _
      | exact steady_generatorThrow hk _ _
      | exact steady_closeGenerator hk _
      | refine Keeps.get_bind fun _ => ?_
      | refine Keeps.ite (fun _ => ?_) fun _ => ?_
      | refine Keeps.bind ?_ fun _ => ?_
      | split

theorem steady_callValue (hk : k.Steady) (callable : Value) (args : Array Value) :
    Steady (callValue k callable args) := by
  refine Keeps.get_bind fun m => ?_
  dsimp only
  split
  · exact steady_callFunction hk _ _
  · exact steady_callNative hk _ _
  · exact (steady_instantiate _ _).bind fun _ => Keeps.pure _
  · exact steady_raise _

end Vm

theorem kit_steady : ∀ n, (kit n).Steady
  | 0 => Kit.steady_exhausted
  | n + 1 => ⟨fun _ _ => Vm.steady_callValue (kit_steady n) _ _,
      fun _ _ => Vm.steady_runFunction (kit_steady n) _ _,
      fun _ => Vm.steady_nextValue (kit_steady n) _⟩

namespace Vm

end Vm

end StackVm
