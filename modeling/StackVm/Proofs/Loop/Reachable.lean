import StackVm.Proofs.Engine.Requests

/-! The loop records of every machine the host reaches.  Every computation of the engine moves
the loop records and compiled loops of each profile by back-edges alone (`Machine.Retains`), and
only loading a unit adds a profile, a fresh one.  So on every reachable machine each profile holds
what a run of back-edges leaves from a fresh profile, and with it the lifecycle of its loops: one
record per back-edge, each in its rest state, and compiled loops that back-edges of the run
compiled, one each, at distinct offsets (`Reachable.profile_loops`). -/

namespace StackVm

open EStateM (Keeps)

namespace Machine

/-- Every profile holds the loop records and compiled loops that a run of back-edges leaves from a
fresh profile. -/
def LoopsFromFresh (m : Machine) : Prop :=
  ∀ p pr, m.profiles[p]? = some pr → ∃ n calls pr₁, BackEdgeRun p (Profile.new n) calls pr₁ ∧
    pr.loops = pr₁.loops ∧ pr.compiled = pr₁.compiled

/-- A later machine whose profiles hold loop records from fresh profiles when the earlier one's
do. -/
def KeepsFresh (m m' : Machine) : Prop := m.LoopsFromFresh → m'.LoopsFromFresh

instance : Std.Refl KeepsFresh := ⟨fun _ => id⟩

instance : IsTrans Machine KeepsFresh := ⟨fun _ _ _ h₁ h₂ => h₂ ∘ h₁⟩

variable {m m' : Machine}

/-- A machine that retains another without adding a profile keeps its profiles' loop records
from fresh ones. -/
theorem keepsFresh_of_retains (hr : m.Retains m') (hs : m'.profiles.size = m.profiles.size) :
    m.KeepsFresh m' := by
  intro h p pr' hpr'
  have hlt : p < m.profiles.size := hs ▸ (Array.getElem?_eq_some_iff.1 hpr').1
  obtain ⟨n, calls₁, pr₁, hrun₁, hl₁, hc₁⟩ := h p m.profiles[p] (Array.getElem?_eq_getElem hlt)
  obtain ⟨calls₂, pr₂, q, hrun₂, hq, hl₂, hc₂⟩ :=
    hr.loops p m.profiles[p] (Array.getElem?_eq_getElem hlt)
  obtain rfl : q = pr' := Option.some_inj.1 (hq.symm.trans hpr')
  obtain ⟨pr₃, hrun₃, hl₃, hc₃⟩ := hrun₂.of_loops hl₁.symm hc₁.symm
  exact ⟨n, calls₁ ++ calls₂, pr₃, hrun₁.append hrun₃, hl₂.trans hl₃.symm, hc₂.trans hc₃.symm⟩

theorem keepsFresh_of_profiles (h : m'.profiles = m.profiles) : m.KeepsFresh m' := by
  intro hf p pr hpr
  exact hf p pr (h ▸ hpr)

theorem keepsFresh_push (len : Nat) :
    m.KeepsFresh { m with profiles := m.profiles.push (Profile.new len) } := by
  intro hf p pr hpr
  rw [Array.getElem?_push] at hpr
  split at hpr
  · exact ⟨len, [], _, .nil _, by rw [← Option.some_inj.1 hpr], by rw [← Option.some_inj.1 hpr]⟩
  · exact hf p pr hpr

theorem loopsFromFresh_ready (config : Config) (fastPaths : Bool) (hosts : List HostObject) :
    (ready config fastPaths hosts).LoopsFromFresh := by
  intro p pr hpr
  have hnil : (ready config fastPaths hosts).profiles = #[] := rfl
  rw [hnil] at hpr
  cases hpr

end Machine

namespace Vm

theorem keepsFresh_alloc (o : Obj) : Keeps Machine.KeepsFresh (alloc o) :=
  Keeps.modifyGet fun _ => Machine.keepsFresh_of_profiles rfl

/-- Loading a unit places its pool values and adds a fresh profile for it. -/
theorem keepsFresh_newCode (u : CodeUnit) : Keeps Machine.KeepsFresh (newCode u) := by
  unfold newCode
  refine (Keeps.mapM_array (fun _ => (keepsFresh_alloc _).bind fun _ => Keeps.pure _) _).bind
    fun strings => ?_
  refine (Keeps.mapM_array (fun _ => Keeps.ite (fun _ => Keeps.pure _)
    fun _ => (keepsFresh_alloc _).bind fun _ => Keeps.pure _) _).bind fun bigInts => ?_
  refine (Keeps.mapM_array (fun _ => (keepsFresh_alloc _).bind fun _ => Keeps.pure _) _).bind
    fun bytes => ?_
  exact (Keeps.modifyGet fun _ => Machine.keepsFresh_push _).bind fun _ => keepsFresh_alloc _

end Vm

namespace Request

variable {r : Request} {m : Machine}

/-- Every request a client may make keeps the profiles' loop records from fresh ones: a load adds
a fresh profile, and every other request retains the machine and keeps the number of profiles. -/
theorem keepsFresh_run (hr : r.Allowed) (hs : m.Sound) : m.KeepsFresh (r.run m).state := by
  have hk := kit_sound nestingBudget
  have hk' := kit_retains nestingBudget
  have of_safe : ∀ {α : Type} {x : Vm α}, Safe x → Vm.Retains x → m.KeepsFresh (x m).state :=
    fun hx hret => Machine.keepsFresh_of_retains (hret m) (hx m hs trivial).evolves.profiles
  cases r with
  | load u => exact (Vm.keepsFresh_newCode u).map _ m
  | place o => exact of_safe ((Vm.safe_place hr).map _) ((Vm.retains_alloc o).map _)
  | bind a name v =>
    exact of_safe ((Vm.safe_bindGlobal a name v).map _)
      ((Vm.retains_modifyObj a fun o => by cases o <;> rfl).map _)
  | invoke code globals args closure =>
    exact of_safe ((Vm.safe_invoke _ _ _ _).map _)
      (((Vm.retains_newFunction _ _ _ _).bind fun f => Vm.retains_callFunction hk' f args).map _)
  | call c args =>
    exact of_safe ((Vm.safe_callValue hk c args).map _) ((Vm.retains_callValue hk' c args).map _)
  | advance v => exact of_safe ((Vm.safe_nextValue hk v).map _) ((Vm.retains_nextValue hk' v).map _)
  | drainAll v => exact of_safe ((Vm.safe_iterate hk v).map _) ((Vm.retains_iterate hk' v).map _)
  | resume g v =>
    exact Machine.keepsFresh_of_retains (((Vm.retains_resumeGenerator hk' g _).map _) m)
      (((Vm.spec_resumeGenerator hk g (.send v)).map (g := Reply.step)) m hs
        fun _ h => by cases h).evolves.profiles
  | send g v =>
    exact of_safe ((Vm.safe_generatorSend hk g v).map _) ((Vm.retains_generatorSend hk' g v).map _)
  | throwInto g v =>
    exact of_safe ((Vm.safe_generatorThrow hk g v).map _)
      ((Vm.retains_generatorThrow hk' g v).map _)
  | close g =>
    exact of_safe ((Vm.safe_closeGenerator hk g).map _) ((Vm.retains_closeGenerator hk' g).map _)

end Request

theorem Reachable.loopsFromFresh {m : Machine} (hm : Reachable m) : m.LoopsFromFresh := by
  induction hm with
  | ready config fastPaths hosts => exact Machine.loopsFromFresh_ready config fastPaths hosts
  | serve r hr hm ih => exact Request.keepsFresh_run hr hm.sound ih

/-- On every machine the host reaches, each profile holds the loop records and compiled loops of
a run of back-edges from a fresh profile.  So it has one record per back-edge, each in a state its
counts allow, and its compiled loops are those that back-edges of the run compiled, one each, at
distinct offsets, in the order they were compiled. -/
theorem Reachable.profile_loops {m : Machine} (hm : Reachable m) {p : Nat} {pr : Profile}
    (hp : m.profiles[p]? = some pr) :
    ∃ n calls pr₁, BackEdgeRun p (Profile.new n) calls pr₁ ∧ pr.loops = pr₁.loops ∧
      pr.compiled = pr₁.compiled ∧ pr.Sound ∧
      ∃ cs : List (Active × Nat), cs.Sublist calls ∧
        cs.Pairwise (fun c c' => c.1.frame.instrPc ≠ c'.1.frame.instrPc) ∧
        List.Forall₂ (fun c k => c.1.compilesLoop c.2 ∧ c.1.loopCompiled c.2 = .ok k) cs
          pr.compiled.toList := by
  obtain ⟨n, calls, pr₁, hrun, hl, hc⟩ := hm.loopsFromFresh p pr hp
  have hs₁ := hrun.sound (Profile.sound_new n)
  have hsound : pr.Sound :=
    ⟨by rw [Profile.backEdges, hl]; exact hs₁.distinct, fun l hl' => hs₁.rests l (hl ▸ hl')⟩
  obtain ⟨cs, hsub, hpair, ks, hks, hall⟩ := hrun.compiled (Profile.sound_new n)
  have hcomp : pr.compiled.toList = ks := by simpa [Profile.new, hc] using hks
  exact ⟨n, calls, pr₁, hrun, hl, hc, hsound, cs, hsub, hpair, hcomp ▸ hall⟩

end StackVm
