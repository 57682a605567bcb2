import StackVm.Proofs.Engine.Calls
import StackVm.Proofs.Steady.Engine

/-! Functions and activations keep the invariants.  Reading a code object or a function finds it
at its address; making a function places an object with no links; binding arguments places at
most one tuple; a fresh frame runs the code object of its function and handles nothing yet.
Counting activations changes only the depth, which erasing keeps.

`Safe.keep` carries a fact that every evolution of the machine keeps (a code object in place)
across a safe computation; `Good.of_eq` moves a good run to a computation that runs alike. -/

namespace StackVm

open EngineState

variable {σ α β : Type} [EngineState σ]

/-- A fact that survives every evolution of the machine holds after a safe computation. -/
theorem Safe.keep {x : EStateM Fault σ α} {I : σ → Prop}
    (hI : ∀ s s', Sound s' → (machine s).Evolves (machine s') → I s → I s') (hx : Safe x) :
    Triple I x (fun _ s => I s) :=
  (Triple.stable hI hx).mono (fun _ h => ⟨trivial, h⟩) (fun _ _ h => h.2) fun _ _ _ => trivial

/-- A run that is a good run of another computation, from the state and from its erasure. -/
theorem Good.of_eq {x y : EStateM Fault σ α} {s : σ} {Q : α → σ → Prop} {E : Fault → σ → Prop}
    (g : Good y s Q E) (hrun : x s = y s)
    (herase : x (EngineState.erase s) = y (EngineState.erase s)) : Good x s Q E := by
  refine ⟨?_, ?_, fun v s' h => g.ok v s' (hrun ▸ h), fun e s' h => g.error e s' (hrun ▸ h),
    fun hco => ?_⟩
  · rw [hrun]
    exact g.sound
  · rw [hrun]
    exact g.evolves
  · rw [herase, hrun]
    exact g.erase hco

/-- A run that is the run of a safe computation from a later sound state, and alike from the
erased states, is good. -/
theorem Good.of_later {x y : EStateM Fault σ α} {s s₁ : σ} (hy : Safe y) (hs₁ : Sound s₁)
    (he : (machine s).Evolves (machine s₁)) (hrun : x s = y s₁)
    (herase : x (EngineState.erase s) = y (EngineState.erase s₁)) :
    Good x s (fun _ _ => True) (fun _ _ => True) := by
  have g := hy s₁ hs₁ trivial
  refine ⟨?_, ?_, fun _ _ _ => trivial, fun e s' h => ⟨trivial, (g.error e s' (hrun ▸ h)).2⟩,
    fun hco => ?_⟩
  · rw [hrun]
    exact g.sound
  · rw [hrun]
    exact he.trans g.evolves
  · rw [herase, hrun]
    exact g.erase (hco.evolves he.heap)

namespace Vm

variable {P : Machine → Prop}

theorem spec_codeObj (a : Addr) :
    Triple P (codeObj a) (fun c m => P m ∧ m.heap.get? a = some (.code c)) (fun _ m => P m) := by
  unfold codeObj
  refine (spec_obj a).bind fun o => ?_
  split
  · exact Triple.pure fun _ _ hp => hp
  · exact spec_internal _ fun _ _ hp => hp.1

theorem spec_function (a : Addr) :
    Triple P (function a) (fun f m => P m ∧ m.heap.get? a = some (.function f))
      (fun _ m => P m) := by
  unfold function
  refine (spec_obj a).bind fun o => ?_
  split
  · exact Triple.pure fun _ _ hp => hp
  · exact spec_internal _ fun _ _ hp => hp.1

theorem safe_codeObj (a : Addr) : Safe (codeObj a) :=
  (spec_codeObj a).mono (fun _ h => h) (fun _ _ _ => trivial) fun _ _ _ => trivial

theorem safe_function (a : Addr) : Safe (function a) :=
  (spec_function a).mono (fun _ h => h) (fun _ _ _ => trivial) fun _ _ _ => trivial

theorem safe_alloc_function (fn : Function) : Safe (alloc (.function fn)) :=
  spec_alloc ⟨(fun _ h => by cases h), (fun _ h => by cases h)⟩ (fun _ h => by cases h)
    (fun _ _ _ _ hb => by cases hb) fun _ _ _ => trivial

theorem safe_newFunction (code globals : Addr) (defaults : Array Value) (closure : Array Addr) :
    Safe (newFunction code globals defaults closure) := by
  refine (safe_codeObj code).bind fun c => ?_
  dsimp only
  refine Safe.ite (fun _ => Triple.throw_bind (fun _ _ _ => trivial) fun _ _ _ _ h => by cases h)
    fun _ => ?_
  exact Safe.ite (fun _ => safe_raise_bind _ _) fun _ => safe_alloc_function _

theorem safe_bind (fn : Function) (args : Array Value) : Safe (bind fn args) := by
  refine (safe_codeObj _).bind fun c => ?_
  dsimp only
  repeat' first
    | exact Safe.pure _
    | exact safe_raise_bind _ _
    | exact safe_raiseMsg _ _
    | exact safe_tuple _
    | refine Safe.bind ?_ fun _ => ?_
    | refine Safe.ite (fun _ => ?_) fun _ => ?_

theorem spec_newFrame (fnAddr : Addr) (args : Array Value) :
    Triple (fun _ => True) (newFrame fnAddr args)
      (fun f m => f.Sound m.heap ∧ f.handled = #[] ∧ f.inherited = none) := by
  unfold newFrame
  refine ((spec_function fnAddr).mono (fun _ h => h) (fun _ _ h => h.2) fun _ _ _ => trivial).bind
    fun fn => ?_
  refine ((spec_codeObj fn.code).mono (fun _ _ => trivial) (fun _ _ h => h.2)
    fun _ _ _ => trivial).bind fun c => ?_
  have keep : ∀ {β : Type} {x : Vm β}, Safe x →
      Triple (fun m => m.heap.get? fn.code = some (.code c)) x
        (fun _ m => m.heap.get? fn.code = some (.code c)) :=
    fun hx => Safe.keep (fun _ _ _ he h => he.heap.code.2 h) hx
  dsimp only
  refine Triple.ite (fun _ => (spec_internal (Q := fun _ m => m.heap.get? fn.code = some (.code c)) _
    fun _ _ _ => trivial).bind fun _ => ?_) fun _ => ?_
  all_goals
    refine (keep (Safe.forIn_array (fun _ _ =>
      (safe_alloc (.cell none) trivial).bind fun _ => Safe.pure _) _ _)).bind fun cells => ?_
    refine (keep (Safe.forIn_array (fun _ _ => ?_) _ _)).bind fun _ =>
      Triple.pure fun _ _ hc => ⟨⟨hc, nofun, nofun⟩, rfl, rfl⟩
    split
    · exact (safe_modifyObj_plain _ (Obj.plain_mapCell _)).bind fun _ => Safe.pure _
    · exact Safe.pure _

theorem safe_newFrame (fnAddr : Addr) (args : Array Value) : Safe (newFrame fnAddr args) :=
  (spec_newFrame fnAddr args).mono (fun _ h => h) (fun _ _ _ => trivial) fun _ _ _ => trivial

theorem safe_enterActivation : Safe enterActivation := by
  intro m hs _
  by_cases hd : m.config.maxDepth ≤ m.depth
  · exact (safe_raise Raise.recursion m hs trivial).of_eq (enterActivation_of_le hd)
      (enterActivation_of_le (m := m.erase) hd)
  · have hlt : m.depth < m.config.maxDepth := Nat.lt_of_not_le hd
    have g : Good (modify fun m : Machine => { m with depth := m.depth + 1 }) m
        (fun _ _ => True) (fun _ _ => True) :=
      Triple.modify (P := fun _ => True) (g := fun m : Machine => { m with depth := m.depth + 1 })
        (Q := fun _ _ => True) (fun _ hs _ =>
        ⟨hs.of_evolves ⟨.refl _, rfl, rfl⟩ hs.heap hs.context rfl, ⟨.refl _, rfl, rfl⟩, trivial⟩)
        (fun _ => rfl) m hs trivial
    exact g.of_eq (enterActivation_of_lt hlt) (enterActivation_of_lt (m := m.erase) hlt)

theorem safe_leaveActivation : Safe leaveActivation :=
  Triple.modify (fun _ hs _ => ⟨hs.of_evolves ⟨.refl _, rfl, rfl⟩ hs.heap hs.context rfl,
    ⟨.refl _, rfl, rfl⟩, trivial⟩) fun _ => rfl

end Vm

end StackVm
