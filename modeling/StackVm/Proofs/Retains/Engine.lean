import StackVm.Proofs.Retains.Step
import StackVm.Proofs.Steady.Engine

/-! The engine retains the store's objects on every path.  Entering and leaving an activation
changes only the depth count; frames, functions, generators, builtins and bound methods are
strung together from computations that retain the store.  So every kit the engine hands down
retains it, by induction on the nesting levels left, and with it every operation the engine
offers: an object, once placed, stays at its address with its kind, whatever runs, and a
generator stays a generator across any run of its own body. -/

namespace StackVm

open EStateM (Keeps)

theorem Act.retains_enterFrame (m : Machine) (frame : Frame) (resume : Resume) :
    Active.Retains ⟨m, { frame with inherited := m.context }⟩ (enterFrame m frame resume).state := by
  cases resume with
  | start => exact refl_of _ _
  | send v => exact retains_push v _
  | throw exc => exact retains_unwind (.raise exc) _

namespace Vm

variable {α : Type} {k : Kit}

/-! ### Activations, frames and functions -/

theorem retains_enterActivation : Retains enterActivation := by
  intro m
  by_cases hd : m.config.maxDepth ≤ m.depth
  · rw [enterActivation_of_le hd]
    exact retains_raise _ m
  · rw [enterActivation_of_lt (Nat.lt_of_not_le hd)]
    exact Machine.retains_of_heap rfl rfl

theorem retains_leaveActivation : Retains leaveActivation :=
  Keeps.modify fun _ => Machine.retains_of_heap rfl rfl

theorem retains_runFrame (hk : k.Retains) (frame : Frame) (resume : Resume) :
    Retains (runFrame k frame resume) := by
  intro m
  have h := Act.retains_enterFrame m frame resume
  rw [runFrame_eq]
  split
  · next e s hs =>
    rw [hs] at h
    exact h.machine
  · next s hs =>
    rw [hs] at h
    have hloop := Act.retains_execLoop hk stepBudget s
    split
    · next e t ht =>
      rw [ht] at hloop
      exact trans_of _ h.machine hloop.machine
    · next e t ht =>
      rw [ht] at hloop
      exact trans_of _ h.machine hloop.machine

theorem retains_runFunction (hk : k.Retains) (fn : Addr) (args : Array Value) :
    Retains (runFunction k fn args) := by
  unfold runFunction
  repeat' with_reducible first
    | exact Keeps.pure _
    | exact Keeps.throw _
    | exact retains_internal _
    | exact retains_enterActivation
    | exact retains_leaveActivation
    | exact retains_newFrame _ _
    | exact retains_runFrame hk _ _
    | refine Keeps.tryCatch ?_ fun _ => ?_
    | refine Keeps.bind ?_ fun _ => ?_
    | split

theorem retains_callFunction (hk : k.Retains) (fnAddr : Addr) (args : Array Value) :
    Retains (callFunction k fnAddr args) := by
  refine (retains_function _).bind fun fn => (retains_bind _ _).bind fun bound => ?_
  refine (retains_codeObj _).bind fun c => ?_
  dsimp only
  split
  · exact (retains_alloc _).bind fun _ => Keeps.pure _
  · exact retains_runFunction hk _ _

/-! ### Generators -/

theorem retains_alreadyExecuting (kind : GeneratorKind) : Retains (alreadyExecuting kind : Vm α) :=
  retains_raiseKind _ _ _

theorem retains_resumeGenerator (hk : k.Retains) (g : Addr) (resume : Resume) :
    Retains (resumeGenerator k g resume) := by
  unfold resumeGenerator
  refine (retains_generator g).bind fun st => (Keeps.pure _).bind fun p => ?_
  obtain ⟨kind, fnAddr, baseArgs, started, running, finished, parked⟩ := p
  dsimp only
  repeat' with_reducible first
    | exact Keeps.pure _
    | exact Keeps.throw _
    | exact retains_alreadyExecuting _
    | exact retains_exhaustedSignal _
    | exact retains_throwUnstarted _ _ _
    | exact retains_raiseMsg _ _
    | exact retains_modifyGenerator _ _
    | exact retains_wrapEscaping _ _
    | exact retains_enterActivation
    | exact retains_leaveActivation
    | exact retains_newFrame _ _
    | exact ((retains_runFrame hk _ _).map _).tryCatch fun _ => Keeps.pure _
    | refine Keeps.tryCatch ?_ fun _ => ?_
    | refine Keeps.ite (fun _ => ?_) fun _ => ?_
    | refine Keeps.bind ?_ fun _ => ?_
    | rw [bind_assoc]
    | rw [pure_bind]
    | split

theorem retains_nextValue (hk : k.Retains) (v : Value) : Retains (nextValue k v) := by
  refine Keeps.get_bind fun m => ?_
  dsimp only
  split
  · exact Ops.retains_iterNext _ _
  · refine Keeps.ite (fun _ => Keeps.pure _) fun _ =>
      (retains_resumeGenerator hk _ _).bind fun r => ?_
    split
    · exact Keeps.pure _
    · exact Keeps.pure _
  · exact retains_raiseMsg _ _

theorem retains_iterate (hk : k.Retains) (v : Value) : Retains (iterate k v) :=
  retains_iterateWith (retains_nextValue hk) v

theorem retains_resumeSignal (hk : k.Retains) (g : Addr) (resume : Resume) (kind : GeneratorKind) :
    Retains (do
      match ← resumeGenerator k g resume with
      | .yielded x => pure x
      | .returned x => completionSignal kind x) := by
  refine (retains_resumeGenerator hk g resume).bind fun r => ?_
  split
  · exact Keeps.pure _
  · exact retains_completionSignal _ _

theorem retains_generatorSend (hk : k.Retains) (g : Addr) (v : Value) :
    Retains (generatorSend k g v) :=
  (retains_generator g).bind fun _ => retains_resumeSignal hk g _ _

theorem retains_generatorThrow (hk : k.Retains) (g : Addr) (v : Value) :
    Retains (generatorThrow k g v) :=
  (retains_excOfValue v).bind fun _ => (retains_modifyExc _ _).bind fun _ =>
    (retains_generator g).bind fun _ => retains_resumeSignal hk g _ _

theorem retains_closeGenerator (hk : k.Retains) (g : Addr) : Retains (closeGenerator k g) := by
  unfold closeGenerator
  refine (retains_generator g).bind fun st => ?_
  dsimp only
  repeat' with_reducible first
    | exact Keeps.pure _
    | exact Keeps.throw _
    | exact retains_alreadyExecuting _
    | exact retains_modifyGenerator _ _
    | exact retains_newExc _
    | exact retains_exc _
    | exact retains_raiseKind _ _ _
    | exact ((retains_resumeGenerator hk _ _).map _).tryCatch fun _ => Keeps.pure _
    | refine Keeps.ite (fun _ => ?_) fun _ => ?_
    | refine Keeps.bind ?_ fun _ => ?_
    | split

/-! ### Natives and calls -/

theorem retains_callBuiltin (hk : k.Retains) (b : Builtin) (args : Array Value) :
    Retains (callBuiltin k b args) := by
  unfold callBuiltin
  dsimp only
  cases b
  all_goals
    dsimp only
    repeat' with_reducible first
      | exact Keeps.pure _
      | exact retains_arity _ _ _ _
      | exact retains_ofExcept _
      | exact retains_raiseMsg _ _
      | exact retains_raise _
      | exact retains_alloc _
      | exact retains_list _
      | exact retains_tuple _
      | exact retains_int _
      | exact retains_str _
      | exact retains_iterate hk _
      | exact retains_nextValue hk _
      | exact Ops.retains_getIter _
      | exact Keeps.mapM_array retains_rangeBound _
      | exact Keeps.foldlM_array (fun _ _ => Ops.retains_binary _ _ _) _ _
      | refine Keeps.get_bind fun _ => ?_
      | refine Keeps.ite (fun _ => ?_) fun _ => ?_
      | refine Keeps.bind ?_ fun _ => ?_
      | split

theorem retains_callNative (hk : k.Retains) (n : Native) (args : Array Value) :
    Retains (callNative k n args) := by
  unfold callNative
  dsimp only
  cases n
  all_goals
    dsimp only
    repeat' with_reducible first
      | exact Keeps.pure _
      | exact retains_callBuiltin hk _ _
      | exact retains_exactArity _ _ _
      | exact retains_modifyObj _ (Obj.keepsKind_mapList _)
      | exact retains_iterate hk _
      | exact retains_listItems _
      | exact retains_dictEntries _
      | exact retains_ofExcept _
      | exact retains_raiseMsg _ _
      | exact retains_list _
      | exact Keeps.mapM_array (fun _ => retains_tuple _) _
      | exact retains_generatorSend hk _ _
      | exact retains_generatorThrow hk _ _
      | exact retains_closeGenerator hk _
      | refine Keeps.get_bind fun _ => ?_
      | refine Keeps.ite (fun _ => ?_) fun _ => ?_
      | refine Keeps.bind ?_ fun _ => ?_
      | split

theorem retains_callValue (hk : k.Retains) (callable : Value) (args : Array Value) :
    Retains (callValue k callable args) := by
  refine Keeps.get_bind fun m => ?_
  dsimp only
  split
  · exact retains_callFunction hk _ _
  · exact retains_callNative hk _ _
  · exact (retains_instantiate _ _).bind fun _ => Keeps.pure _
  · exact retains_raise _

end Vm

/-- Every kit the engine hands down retains the store: by induction on the nesting levels
left. -/
theorem kit_retains : ∀ n, (kit n).Retains
  | 0 => Kit.retains_exhausted
  | n + 1 => ⟨fun _ _ => Vm.retains_callValue (kit_retains n) _ _,
      fun _ _ => Vm.retains_runFunction (kit_retains n) _ _,
      fun _ => Vm.retains_nextValue (kit_retains n) _⟩

end StackVm
