import StackVm.Proofs.Engine.Instructions
import StackVm.Proofs.Function.Binding

/-! Frames and function calls keep the invariants.  A frame runs on the machine it is entered
on: it inherits the caller's exception context, a resumption pushes the value sent or hands the
exception thrown in to the handlers, and then its instruction loop runs.  What comes back is the
frame as it stopped, which runs code of the store and handles exceptions of it, so that a
generator may park it.  A call binds the arguments and either runs a fresh frame, counted as one
more activation, or makes a generator that has not started. -/

namespace StackVm

open EngineState

variable {σ α : Type} [EngineState σ]

theorem Safe.keepRaised {x : EStateM Fault σ α} (hx : Safe x) (e : Fault) :
    Triple (Raised e) x (fun _ s => Raised e s) :=
  Safe.keep (fun _ _ _ he h a ha => he.heap.isExc (h a ha)) hx

namespace Generator

theorem coherent_of_idle {g : Generator} (hr : g.running = false) (hf : g.finished = false)
    (hfr : g.frame = none) : g.Coherent where
  running h := absurd (hr ▸ h) Bool.false_ne_true
  finished h := absurd (hf ▸ h) Bool.false_ne_true
  parked h := by
    rw [hfr] at h
    exact absurd h Bool.false_ne_true
  fresh _ := ⟨hfr, hr⟩

end Generator

namespace Act

/-- How a frame is entered: from its start, with the value sent pushed, or with the exception
thrown in handed to its handlers. -/
def enterWith : Resume → Act Unit
  | .start => pure ()
  | .send v => push v
  | .throw exc => unwind (.raise exc)

theorem spec_enterWith (resume : Resume) :
    Triple (fun s => ∀ exc, resume = .throw exc → s.machine.heap.IsExc exc) (enterWith resume)
      (fun _ _ => True) := by
  cases resume with
  | start => exact Triple.pure fun _ _ _ => trivial
  | send v => exact (safe_push v).mono (fun _ _ => trivial) (fun _ _ h => h) fun _ _ h => h
  | throw exc =>
    exact (spec_unwind (.raise exc)).mono (fun _ h a ha => by cases ha; exact h exc rfl)
      (fun _ _ h => h) fun _ _ h => h

end Act

namespace Vm

variable {k : Kit}

/-- An activation computation run on a frame made from the machine, as a machine computation
that returns the frame it ends with. -/
def onFrame (F : Machine → Frame) (x : Act α) : Vm (α × Frame) := fun m =>
  match x ⟨m, F m⟩ with
  | .ok a s => .ok (a, s.frame) s.machine
  | .error e s => .error e s.machine

/-- An activation computation that keeps the invariants, run on a sound frame made from the
machine (alike from the erased machine), hands back a sound frame. -/
theorem spec_onFrame {P : Machine → Prop} {P' : Active → Prop} {F : Machine → Frame}
    {x : Act α} (hx : Triple P' x (fun _ _ => True))
    (hF : ∀ m, m.Sound → P m → (F m).Sound m.heap ∧ P' ⟨m, F m⟩) (hFe : ∀ m, F m.erase = F m) :
    Triple P (onFrame F x) (fun r m => r.2.Sound m.heap) := by
  intro m hs hp
  obtain ⟨hf, hp'⟩ := hF m hs hp
  have g := hx ⟨m, F m⟩ ⟨hs, hf⟩ hp'
  have herase : m.heap.HostsCoherent → x ⟨m.erase, F m.erase⟩ = (x ⟨m, F m⟩).mapState erase :=
    fun hco => by
      rw [hFe]
      exact g.erase hco
  cases hxm : x ⟨m, F m⟩ with
  | ok a s =>
    have hrun : onFrame F x m = .ok (a, s.frame) s.machine := by simp only [onFrame, hxm]
    have hs' := g.sound_ok hxm
    refine ⟨hrun ▸ hs'.machine, hrun ▸ g.evolves_ok hxm, fun r m' h => ?_, fun e m' h => ?_,
      fun hco => ?_⟩
    · rw [hrun] at h
      cases h
      exact hs'.frame
    · rw [hrun] at h
      cases h
    · have he := herase hco
      rw [hxm] at he
      show (match x ⟨m.erase, F m.erase⟩ with
        | .ok a s => .ok (a, s.frame) s.machine
        | .error e s => .error e s.machine) = (onFrame F x m).mapState Machine.erase
      rw [he, hrun]
      rfl
  | error e s =>
    have hrun : onFrame F x m = .error e s.machine := by simp only [onFrame, hxm]
    refine ⟨hrun ▸ (g.sound_error hxm).machine, hrun ▸ g.evolves_error hxm, fun r m' h => ?_,
      fun e' m' h => ?_, fun hco => ?_⟩
    · rw [hrun] at h
      cases h
    · rw [hrun] at h
      cases h
      exact ⟨trivial, (g.error e s hxm).2⟩
    · have he := herase hco
      rw [hxm] at he
      show (match x ⟨m.erase, F m.erase⟩ with
        | .ok a s => .ok (a, s.frame) s.machine
        | .error e s => .error e s.machine) = (onFrame F x m).mapState Machine.erase
      rw [he, hrun]
      rfl

/-- A frame run is its entering and its instruction loop, on the frame with the caller's
context as its inherited one. -/
theorem runFrame_eq_onFrame (k : Kit) (frame : Frame) (resume : Resume) :
    runFrame k frame resume = onFrame (fun m => { frame with inherited := m.context })
      (Act.enterWith resume >>= fun _ => Act.execLoop k stepBudget) := by
  funext m
  cases resume with
  | start =>
    show _ = onFrame _ (EStateM.bind (EStateM.pure ()) _) m
    simp only [runFrame, onFrame, EStateM.bind, EStateM.pure]
    rcases Act.execLoop k stepBudget _ with ⟨_, _⟩ | ⟨_, _⟩ <;> rfl
  | send v =>
    show _ = onFrame _ (EStateM.bind _ _) m
    simp only [runFrame, onFrame, Act.enterWith, EStateM.bind]
    rcases Act.push v _ with ⟨⟨⟩, t⟩ | ⟨_, _⟩
    · dsimp only
      rcases Act.execLoop k stepBudget t with ⟨_, _⟩ | ⟨_, _⟩ <;> rfl
    · rfl
  | throw exc =>
    show _ = onFrame _ (EStateM.bind _ _) m
    simp only [runFrame, onFrame, Act.enterWith, EStateM.bind]
    rcases Act.unwind _ _ with ⟨⟨⟩, t⟩ | ⟨_, _⟩
    · dsimp only
      rcases Act.execLoop k stepBudget t with ⟨_, _⟩ | ⟨_, _⟩ <;> rfl
    · rfl

/-- A frame run from a resumption keeps the invariants, and hands back the frame as it stopped,
which runs code of the store and handles exceptions of it. -/
theorem spec_runFrame (hk : k.Sound) (frame : Frame) (resume : Resume) :
    Triple (fun m => frame.Sound m.heap ∧ ∀ exc, resume = .throw exc → m.heap.IsExc exc)
      (runFrame k frame resume) (fun r m => r.2.Sound m.heap) := by
  rw [runFrame_eq_onFrame]
  exact spec_onFrame ((Act.spec_enterWith resume).bind fun _ => Act.safe_execLoop hk _)
    (fun _ hs hp => ⟨⟨hp.1.code, hp.1.handled, hs.context⟩, hp.2⟩) fun _ => rfl

/-- A function run on bound arguments keeps the invariants: the activation is counted, the
fresh frame run, and the count given back on every way out. -/
theorem safe_runFunction (hk : k.Sound) (fn : Addr) (args : Array Value) :
    Safe (runFunction k fn args) := by
  unfold runFunction
  have hrun : Safe (do runFrame k (← newFrame fn args) .start) :=
    ((spec_newFrame fn args).mono (fun _ _ => trivial) (fun _ _ h => h) fun _ _ h => h).bind
      fun f => (spec_runFrame hk f .start).mono (fun _ h => ⟨h.1, fun _ h => by cases h⟩)
        (fun _ _ _ => trivial) fun _ _ h => h
  refine safe_enterActivation.bind fun _ => (Triple.tryCatch hrun fun e => ?_).bind fun r => ?_
  · exact ((safe_leaveActivation.keepRaised e).mono (fun _ h => h.2) (fun _ _ h => h)
      fun _ _ h => h).bind fun _ => spec_rethrow e
  · refine safe_leaveActivation.bind fun _ => ?_
    split
    · exact Safe.pure _
    · exact safe_internal _

theorem safe_allocGenerator (g : Generator) (hr : g.running = false) (hf : g.finished = false)
    (hfr : g.frame = none) : Safe (alloc (.generator g)) :=
  spec_alloc ⟨(fun _ h => by cases h), (fun _ h => by cases h)⟩
    (fun g' h => by
      cases h
      exact ⟨Generator.coherent_of_idle hr hf hfr, hfr⟩)
    (fun _ _ _ _ hb => by cases hb) fun _ _ _ => trivial

theorem safe_callFunction (hk : k.Sound) (fnAddr : Addr) (args : Array Value) :
    Safe (callFunction k fnAddr args) := by
  refine (safe_function _).bind fun fn => (safe_bind _ _).bind fun bound => ?_
  refine (safe_codeObj _).bind fun c => ?_
  dsimp only
  split
  · exact (safe_allocGenerator _ rfl rfl rfl).bind fun _ => Safe.pure _
  · exact safe_runFunction hk _ _

theorem bind_direct {m : Machine} {fn : Function} {c : CodeObj} {args : Array Value}
    (hc : m.heap.get? fn.code = some (.code c)) (hd : c.unit.Direct args.size) :
    bind fn args m = .ok args m := by
  unfold bind
  rw [EStateM.run_bind_of_ok (codeObj_of_get? hc)]
  simp only [hd.varargs, hd.argCount, Nat.lt_irrefl, if_false, pure_bind]
  rfl

theorem callValue_direct {m : Machine} {a : Addr} {fn : Function} {c : CodeObj}
    {args : Array Value} (k : Kit) (hfn : m.heap.get? a = some (.function fn))
    (hc : m.heap.get? fn.code = some (.code c)) (hd : c.unit.Direct args.size) :
    callValue k (.ref a) args m = runFunction k a args m := by
  have hcall : callValue k (.ref a) args m = callFunction k a args m := by
    unfold callValue
    rw [get_bind_run]
    simp only [Heap.deref, hfn]
  rw [hcall]
  unfold callFunction
  rw [EStateM.run_bind_of_ok (function_of_get? hfn), EStateM.run_bind_of_ok (bind_direct hc hd),
    EStateM.run_bind_of_ok (codeObj_of_get? hc)]
  simp only [hd.generatorKind]

end Vm

end StackVm
