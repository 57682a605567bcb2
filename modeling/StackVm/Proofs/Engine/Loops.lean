import StackVm.Proofs.Engine.Functions
import StackVm.Proofs.Engine.Operation
import StackVm.Proofs.Loop.Polling

/-! Back-edges and compiled loops keep the invariants.  A back-edge's decision reads and writes
the loop records and compiled loops of the unit's profile, never its sites, so erasing commutes
with it (`Profile.poll_erase`) and every site keeps its guess (`Machine.siteAt_setProfile`).  A
compiled loop works on the frame and the store through operations that are safe on their own. -/

namespace StackVm

open EngineState

namespace Profile

variable {pr : Profile} {header b : Nat}

@[simp] theorem erase_loops (pr : Profile) : pr.erase.loops = pr.loops := rfl

@[simp] theorem erase_compiled (pr : Profile) : pr.erase.compiled = pr.compiled := rfl

theorem loopIndex_erase (header b : Nat) :
    pr.erase.loopIndex header b = ((pr.loopIndex header b).1.erase, (pr.loopIndex header b).2) := by
  unfold loopIndex
  rw [erase_loops]
  split <;> rfl

theorem recordAt_erase (header b : Nat) : pr.erase.recordAt header b = pr.recordAt header b := by
  simp only [recordAt, loopIndex_erase]
  rfl

theorem withLoop_erase (header b : Nat) (g : LoopInfo → LoopInfo) :
    pr.erase.withLoop header b g = (pr.withLoop header b g).erase := by
  simp only [withLoop, loopIndex_erase]
  rfl

theorem sites_loopIndex (header b : Nat) : (pr.loopIndex header b).1.sites = pr.sites := by
  unfold loopIndex
  split <;> rfl

theorem sites_withLoop (header b : Nat) (g : LoopInfo → LoopInfo) :
    (pr.withLoop header b g).sites = pr.sites := by
  have h : (pr.loopIndex header b).1.sites = pr.sites := sites_loopIndex header b
  unfold withLoop
  generalize pr.loopIndex header b = q at h ⊢
  obtain ⟨pr', i⟩ := q
  exact h

/-- A decision reads and writes the loop records and compiled loops only. -/
theorem poll_erase (u : CodeUnit) (fast : Bool) (header b depth t : Nat) :
    pr.erase.poll u fast header b depth t =
      ((pr.poll u fast header b depth t).1.erase, (pr.poll u fast header b depth t).2) := by
  unfold poll
  simp only [recordAt_erase, withLoop_erase]
  split
  · split <;> rfl
  · rfl
  · rfl

theorem sites_poll (u : CodeUnit) (fast : Bool) (header b depth t : Nat) :
    (pr.poll u fast header b depth t).1.sites = pr.sites := by
  unfold poll
  split
  · split
    · simp only [sites_withLoop]
    · simp only [sites_withLoop]
  · exact sites_withLoop _ _ _
  · exact sites_withLoop _ _ _

end Profile

namespace Machine

variable {m : Machine} {p : Nat} {pr pr' : Profile}

/-- Replacing a profile by one with the same sites keeps every site. -/
theorem siteAt_setProfile (hpr : m.profiles[p]? = some pr) (hsites : pr'.sites = pr.sites)
    (q qc : Nat) :
    ({ m with profiles := m.profiles.set! p pr' } : Machine).siteAt q qc = m.siteAt q qc := by
  simp only [siteAt, Array.set!_eq_setIfInBounds, Array.getElem?_setIfInBounds]
  split
  · next hpq =>
    subst hpq
    rw [if_pos (Array.getElem?_eq_some_iff.1 hpr).1, hpr]
    simp only [Option.bind_some, hsites]
  · rfl

theorem evolves_setProfile (p : Nat) (pr' : Profile) :
    m.Evolves { m with profiles := m.profiles.set! p pr' } :=
  ⟨.refl _, rfl, by simp⟩

theorem erase_setProfile (p : Nat) (pr' : Profile) :
    ({ m with profiles := m.profiles.set! p pr' } : Machine).erase =
      { m.erase with profiles := m.erase.profiles.set! p pr'.erase } := by
  simp only [erase, Array.set!_eq_setIfInBounds, Array.map_setIfInBounds]

/-- A profile replaced by one with the same sites keeps the machine sound. -/
theorem Sound.setProfile (hs : m.Sound) (hpr : m.profiles[p]? = some pr)
    (hsites : pr'.sites = pr.sites) : ({ m with profiles := m.profiles.set! p pr' } : Machine).Sound where
  heap := hs.heap
  context := hs.context
  profiled a c hc := by
    simp only [Array.set!_eq_setIfInBounds, Array.size_setIfInBounds]
    exact hs.profiled a c hc
  owners := hs.owners
  caches hco a c pc st hc hst := by
    rw [siteAt_setProfile hpr hsites] at hst
    exact (hs.caches hco a c pc st hc hst).evolves (evolves_setProfile p pr')

end Machine

namespace Active

theorem profile_erase {s : Active} (hp : s.frame.code.profile < s.machine.profiles.size) :
    s.erase.profile = s.profile.erase := by
  simp [profile, Active.erase, Machine.erase, hp]

theorem erase_withProfile (s : Active) (pr : Profile) :
    (s.withProfile pr).erase = s.erase.withProfile pr.erase := by
  simp only [withProfile, Active.erase, Machine.erase_setProfile]

end Active

namespace Act

variable {α : Type}

/-- A change of the loop record of a back-edge keeps the invariants: it touches the loop
records, which erasing keeps, and no site. -/
theorem safe_updateLoop (header b : Nat) (g : LoopInfo → LoopInfo × α) :
    Safe (updateLoop header b g) := by
  intro s hs _
  have hp := hs.machine.profiled _ _ hs.frame.code
  obtain ⟨pr, hpr⟩ : ∃ pr, s.machine.profiles[s.frame.code.profile]? = some pr :=
    ⟨_, Array.getElem?_eq_getElem hp⟩
  have hsites : (s.profile.withLoop header b fun l => (g l).1).sites = pr.sites := by
    rw [Profile.sites_withLoop, Active.profile_of_getElem? hpr]
  have hs₁ : (s.withProfile (s.profile.withLoop header b fun l => (g l).1)).Sound :=
    ⟨hs.machine.setProfile hpr hsites, hs.frame⟩
  refine Good.of_later (Safe.pure _) hs₁ (Machine.evolves_setProfile _ _)
    (updateLoop_run header b g s) ?_
  show updateLoop header b g s.erase = _
  rw [updateLoop_run, Active.profile_erase hp, Profile.recordAt_erase, Profile.withLoop_erase]
  simp only [EngineState.erase_active, Active.erase_withProfile]
  rfl

theorem safe_leaveAt (pc : Nat) : Safe (leaveAt pc) := (safe_jumpTo pc).bind fun _ => Safe.pure _

theorem safe_deoptAt (pc : Nat) : Safe (deoptAt pc) := (safe_jumpTo pc).bind fun _ => Safe.pure _

theorem spec_rethrow {E : Fault → Active → Prop} {Q : α → Active → Prop} (e : Fault)
    {g : Frame → Frame} (hg : ∀ f : Frame, f.Alike (g f)) :
    Triple (fun s => E e s ∧ Raised e s) (modifyFrame g >>= fun _ => (throw e : Act α)) Q
      (fun _ _ => True) :=
  (Triple.modifyFrame (Q := fun _ s => Raised e s) fun _ hs hp =>
    ⟨hs.frame.alike (hg _), hp.2⟩).bind fun _ => Triple.throw (fun _ _ _ => trivial) fun _ _ h => h

theorem safe_tryCatch_rethrow {x : Act α} (hx : Safe x) {g : Frame → Frame}
    (hg : ∀ f : Frame, f.Alike (g f)) :
    Safe (tryCatch x fun e => modifyFrame g >>= fun _ => throw e) :=
  Triple.tryCatch hx fun e => spec_rethrow (E := fun _ _ => True) e hg

theorem safe_loopStep (c : CompiledLoop) (index : Nat) : Safe (loopStep c index) := by
  unfold loopStep
  dsimp only
  repeat' with_reducible first
    | exact Safe.pure _
    | exact (safe_leaveAt _).map _
    | exact (safe_deoptAt _).map _
    | exact safe_reads _
    | exact safe_push _
    | exact safe_pop
    | exact safe_peek
    | exact safe_peekAt _
    | exact safe_popN _
    | exact safe_rotate _
    | exact safe_heap
    | exact safe_storeLocal _ _
    | exact safe_vm (Vm.safe_num _)
    | exact (safe_vm (Ops.safe_iterNext _ _)).map some
    | refine safe_tryCatch_rethrow ?_ fun _ => ⟨rfl, rfl, rfl, rfl⟩
    | refine Safe.ite (fun _ => ?_) fun _ => ?_
    | refine Safe.bind ?_ fun _ => ?_
    | split

theorem safe_runCompiled (c : CompiledLoop) : ∀ fuel index, Safe (runCompiled c fuel index)
  | 0, _ => Safe.throw fun _ h => by cases h
  | fuel + 1, index => (safe_loopStep c index).bind fun r => by
    cases r with
    | next i => exact safe_runCompiled c fuel i
    | exit e => exact Safe.pure _

theorem safe_enterLoop (header b depth : Nat) (e : Option CompiledLoop) :
    Safe (enterLoop header b depth e) := by
  unfold enterLoop
  repeat' first
    | exact Safe.pure _
    | exact safe_count fun _ => rfl
    | exact safe_runCompiled _ _ _
    | exact safe_updateLoop _ _ _
    | refine Safe.ite (fun _ => ?_) fun _ => ?_
    | refine Safe.bind ?_ fun _ => ?_
    | split

/-- A back-edge keeps the invariants: its decision changes the loop records and compiled loops of
the unit's profile, which erasing keeps, and none of its sites. -/
theorem safe_backEdge (d : Nat) : Safe (backEdge d) := by
  intro s hs _
  by_cases hd : s.frame.instrPc < d
  · exact (safe_internal (α := Unit) _ s hs trivial).of_eq (backEdge_of_lt hd)
      (backEdge_of_lt (s := s.erase) hd)
  have hd' : d ≤ s.frame.instrPc := Nat.le_of_not_lt hd
  cases ht : s.machine.config.osrThreshold with
  | none =>
    exact (safe_jumpTo _ s hs trivial).of_eq (backEdge_of_noThreshold hd' ht)
      (backEdge_of_noThreshold (s := s.erase) hd' ht)
  | some t =>
    have hp := hs.machine.profiled _ _ hs.frame.code
    obtain ⟨pr, hpr⟩ : ∃ pr, s.machine.profiles[s.frame.code.profile]? = some pr :=
      ⟨_, Array.getElem?_eq_getElem hp⟩
    have hpr' : s.erase.machine.profiles[s.frame.code.profile]? = some pr.erase := by
      simp [Machine.erase, hpr]
    have hsites : (pr.poll s.frame.unit s.machine.fastPaths (s.frame.instrPc - d) s.frame.instrPc
        s.frame.stack.size t).1.sites = pr.sites :=
      Profile.sites_poll s.frame.unit s.machine.fastPaths (s.frame.instrPc - d) s.frame.instrPc
        s.frame.stack.size t
    have hs₁ : Active.Sound ⟨{ s.machine with
        profiles := s.machine.profiles.set! s.frame.code.profile (pr.poll s.frame.unit
          s.machine.fastPaths (s.frame.instrPc - d) s.frame.instrPc s.frame.stack.size t).1 },
        { s.frame with pc := s.frame.instrPc - d }⟩ :=
      ⟨hs.machine.setProfile hpr hsites, hs.frame.alike ⟨rfl, rfl, rfl, rfl⟩⟩
    refine Good.of_later (safe_enterLoop _ _ _ _) hs₁ (Machine.evolves_setProfile _ _)
      (backEdge_eq hd' ht hpr) ?_
    show backEdge d s.erase = _
    rw [backEdge_eq (s := s.erase) hd' ht hpr']
    dsimp only
    rw [Profile.poll_erase]
    simp only [EngineState.erase_active, Active.erase, Machine.erase_setProfile,
      Machine.erase_fastPaths]

end Act

end StackVm
