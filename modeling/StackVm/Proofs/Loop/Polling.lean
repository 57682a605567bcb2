import StackVm.Proofs.Loop.Records
import StackVm.Proofs.Loop.Interpreted
import StackVm.Proofs.Activation.Search

/-! Back-edges on the profile of their unit.  A back-edge jumps to its loop header; when loops
are compiled it counts the iteration, takes the decision `Profile.poll`, enters the compiled loop
the decision offers when the stack has its depth, and counts a guard failure of the compiled
loop against the record (`backEdge_eq`).  A compiled loop changes the frame and the store and
leaves the profiles and the counters as they were (`keepsTuning_runCompiled`), so the whole of
what a back-edge does to the profile of its unit is the decision and at most one counted guard
failure (`backEdge_profile`). -/

namespace StackVm

open EStateM (Keeps)

namespace Active

/-- The profile of the unit the frame runs, as the engine reads it. -/
def profile (s : Active) : Profile :=
  (s.machine.profiles[s.frame.code.profile]?).getD (Profile.new 0)

/-- The activation with the profile of its unit replaced. -/
def withProfile (s : Active) (pr : Profile) : Active :=
  ⟨{ s.machine with profiles := s.machine.profiles.set! s.frame.code.profile pr }, s.frame⟩

theorem profile_of_getElem? {s : Active} {pr : Profile}
    (h : s.machine.profiles[s.frame.code.profile]? = some pr) : s.profile = pr := by
  simp [profile, h]

theorem profile_withProfile {s : Active} (hp : s.frame.code.profile < s.machine.profiles.size)
    (pr : Profile) : (s.withProfile pr).profile = pr :=
  profile_of_getElem? (by simp [withProfile, hp])

/-- A later state of an activation, running the same code on a machine with the same profiles,
counters and threshold. -/
structure SameTuning (s s' : Active) : Prop where
  tuning : s'.machine.tuning = s.machine.tuning
  code : s'.frame.code = s.frame.code

instance : Std.Refl SameTuning := ⟨fun _ => ⟨rfl, rfl⟩⟩

instance : IsTrans Active SameTuning :=
  ⟨fun _ _ _ h₁ h₂ => ⟨h₂.tuning.trans h₁.tuning, h₂.code.trans h₁.code⟩⟩

theorem SameTuning.profile {s s' : Active} (h : s.SameTuning s') : s'.profile = s.profile := by
  have hp : s'.machine.profiles = s.machine.profiles := congrArg Tuning.profiles h.tuning
  simp only [Active.profile, hp, h.code]

end Active

namespace Act

variable {α β : Type}

/-! ### Compiled loops leave the profiles and counters alone -/

/-- An activation computation that keeps the profiles, the counters and the frame's code. -/
abbrev KeepsTuning (x : Act α) : Prop := Keeps Active.SameTuning x

theorem keepsTuning_vm {x : Vm α} (hx : Vm.OnStore x) : KeepsTuning (vm x) := by
  rintro ⟨m, f⟩
  have h := hx m m rfl
  simp only [vm]
  split
  · next a m' hxm =>
    rw [hxm, Vm.onto_ok] at h
    obtain ⟨-, hm⟩ := EStateM.Result.ok.inj h
    exact ⟨by rw [hm]; rfl, rfl⟩
  · next e m' hxm =>
    rw [hxm, Vm.onto_error] at h
    obtain ⟨-, hm⟩ := EStateM.Result.error.inj h
    exact ⟨by rw [hm]; rfl, rfl⟩

theorem keepsTuning_reads (g : Frame → α) : KeepsTuning (reads g) := fun s => refl_of _ s

theorem keepsTuning_readsMachine (g : Machine → α) : KeepsTuning (readsMachine g) :=
  fun s => refl_of _ s

theorem keepsTuning_heap : KeepsTuning heap := keepsTuning_readsMachine _

theorem keepsTuning_modifyFrame {g : Frame → Frame} (hg : ∀ f, (g f).code = f.code) :
    KeepsTuning (modifyFrame g) := fun ⟨_, f⟩ => ⟨rfl, hg f⟩

theorem keepsTuning_stackFault (overflow : Bool) : KeepsTuning (stackFault overflow) :=
  keepsTuning_reads _

theorem keepsTuning_checkStack (c : Prop) [Decidable c] (b : Bool) (f : Unit → Act β)
    (hf : KeepsTuning (f ())) :
    KeepsTuning (if c then (do let e ← stackFault b; let r ← throw e; f r) else f ()) :=
  Keeps.ite (fun _ => (keepsTuning_stackFault _).bind fun _ => Keeps.throw _) fun _ => hf

theorem keepsTuning_push (v : Value) : KeepsTuning (push v) := by
  refine (keepsTuning_reads _).bind fun full => ?_
  dsimp only
  exact keepsTuning_checkStack _ _ _ (keepsTuning_modifyFrame fun _ => rfl)

theorem keepsTuning_peek : KeepsTuning peek := by
  refine (keepsTuning_reads _).bind fun v => ?_
  split
  · exact Keeps.pure _
  · exact (keepsTuning_stackFault _).bind fun _ => Keeps.throw _

theorem keepsTuning_peekAt (depth : Nat) : KeepsTuning (peekAt depth) := by
  refine (keepsTuning_reads _).bind fun v => ?_
  split
  · exact Keeps.pure _
  · exact (keepsTuning_stackFault _).bind fun _ => Keeps.throw _

theorem keepsTuning_pop : KeepsTuning pop := by
  refine keepsTuning_peek.bind fun _ => Keeps.bind ?_ fun _ => Keeps.pure _
  exact keepsTuning_modifyFrame fun _ => rfl

theorem keepsTuning_popN (n : Nat) : KeepsTuning (popN n) := by
  refine (keepsTuning_reads _).bind fun size => ?_
  dsimp only
  refine keepsTuning_checkStack _ _ _
    ((keepsTuning_reads _).bind fun _ => Keeps.bind ?_ fun _ => Keeps.pure _)
  exact keepsTuning_modifyFrame fun _ => rfl

theorem keepsTuning_rotate (n : Nat) : KeepsTuning (rotate n) := by
  refine (keepsTuning_reads _).bind fun size => ?_
  dsimp only
  refine keepsTuning_checkStack _ _ _
    (keepsTuning_pop.bind fun _ => (keepsTuning_popN _).bind fun _ => ?_)
  exact keepsTuning_modifyFrame fun _ => rfl

theorem keepsTuning_storeLocal (slot : Nat) (v : Value) : KeepsTuning (storeLocal slot v) := by
  refine (keepsTuning_reads _).bind fun _ => ?_
  exact Keeps.ite (fun _ => keepsTuning_modifyFrame fun _ => rfl) fun _ => Keeps.throw _

theorem keepsTuning_leaveAt (pc : Nat) : KeepsTuning (leaveAt pc) := by
  refine Keeps.bind ?_ fun _ => Keeps.pure _
  exact keepsTuning_modifyFrame fun _ => rfl

theorem keepsTuning_deoptAt (pc : Nat) : KeepsTuning (deoptAt pc) := by
  refine Keeps.bind ?_ fun _ => Keeps.pure _
  exact keepsTuning_modifyFrame fun _ => rfl

theorem keepsTuning_loopStep (c : CompiledLoop) (index : Nat) : KeepsTuning (loopStep c index) := by
  unfold loopStep
  dsimp only
  repeat' with_reducible first
    | exact Keeps.pure _
    | exact (keepsTuning_leaveAt _).map _
    | exact (keepsTuning_deoptAt _).map _
    | exact keepsTuning_reads _
    | exact keepsTuning_push _
    | exact keepsTuning_pop
    | exact keepsTuning_peek
    | exact keepsTuning_peekAt _
    | exact keepsTuning_popN _
    | exact keepsTuning_rotate _
    | exact keepsTuning_heap
    | exact keepsTuning_storeLocal _ _
    | exact keepsTuning_vm (Vm.onStore_num _)
    | exact (keepsTuning_vm (Ops.onStore_iterNext _ _)).map _
    | exact keepsTuning_modifyFrame fun _ => rfl
    | exact Keeps.throw _
    | refine Keeps.tryCatch ?_ fun _ => ?_
    | refine Keeps.ite (fun _ => ?_) fun _ => ?_
    | refine Keeps.bind ?_ fun _ => ?_
    | split

theorem keepsTuning_runCompiled (c : CompiledLoop) :
    ∀ fuel index, KeepsTuning (runCompiled c fuel index)
  | 0, _ => Keeps.throw _
  | fuel + 1, index => by
    refine (keepsTuning_loopStep c index).bind fun r => ?_
    cases r with
    | next i => exact keepsTuning_runCompiled c fuel i
    | exit e => exact Keeps.pure _

/-! ### A back-edge, step by step -/

theorem readsMachine_bind_run (g : Machine → α) (f : α → Act β) (s : Active) :
    (readsMachine g >>= f) s = f (g s.machine) s := rfl

theorem modifyMachine_bind_run (g : Machine → Machine) (f : Unit → Act β) (s : Active) :
    (modifyMachine g >>= f) s = f () ⟨g s.machine, s.frame⟩ := rfl

theorem updateLoop_run (header b : Nat) (g : LoopInfo → LoopInfo × α) (s : Active) :
    updateLoop header b g s = .ok (g (s.profile.recordAt header b)).2
      (s.withProfile (s.profile.withLoop header b fun l => (g l).1)) := by
  obtain ⟨m, f⟩ := s
  simp only [updateLoop, Active.profile, Active.withProfile, Profile.recordAt, Profile.withLoop]
  rfl

theorem updateLoop_bind_run (header b : Nat) (g : LoopInfo → LoopInfo × α) (f : α → Act β)
    (s : Active) : (updateLoop header b g >>= f) s = f (g (s.profile.recordAt header b)).2
      (s.withProfile (s.profile.withLoop header b fun l => (g l).1)) :=
  EStateM.run_bind_of_ok (updateLoop_run header b g s)

/-- What a back-edge does once it has decided: it enters the compiled loop it decided on when
the stack has the depth the loop was compiled for, and counts a guard failure of the compiled
loop against the record of the back-edge. -/
def enterLoop (header b depth : Nat) (entry : Option CompiledLoop) : Act Unit := do
  let some c := entry | return
  if c.entryDepth != depth then return
  count fun s => { s with osrEntries := s.osrEntries + 1 }
  match ← runCompiled c loopBudget 0 with
  | .leave _ => pure ()
  | .deopt _ =>
    count fun s => { s with osrDeopts := s.osrDeopts + 1 }
    updateLoop header b fun l => (l.recordDeopt, ())

theorem modify_setIfInBounds_self {xs : Array α} {i : Nat} (x : α) (F : α → α) :
    (xs.setIfInBounds i x).modify i F = xs.setIfInBounds i (F x) := by
  apply Array.ext_getElem?
  intro j
  simp only [Array.getElem?_modify, Array.getElem?_setIfInBounds]
  split <;> simp_all

/-- A back-edge within the code, with loops compiled, is its decision on the profile of its unit
followed by entering what the decision offers. -/
theorem backEdge_eq {s : Active} {d t : Nat} {pr : Profile} (hd : d ≤ s.frame.instrPc)
    (ht : s.machine.config.osrThreshold = some t)
    (hpr : s.machine.profiles[s.frame.code.profile]? = some pr) :
    backEdge d s =
      let b := s.frame.instrPc
      let r := pr.poll s.frame.unit s.machine.fastPaths (b - d) b s.frame.stack.size t
      enterLoop (b - d) b s.frame.stack.size r.2
        ⟨{ s.machine with profiles := s.machine.profiles.set! s.frame.code.profile r.1 },
          { s.frame with pc := b - d }⟩ := by
  obtain ⟨m, f⟩ := s
  dsimp only at hd ht hpr ⊢
  have hp : f.code.profile < m.profiles.size := (Array.getElem?_eq_some_iff.1 hpr).1
  unfold backEdge
  rw [reads_bind_run]
  dsimp only
  rw [if_neg (by simpa using hd)]
  simp only [jumpTo, modifyFrame_bind_run, readsMachine_bind_run, ht, updateLoop_bind_run,
    reads_bind_run, Active.profile, Active.withProfile, hpr, Option.getD_some, Profile.poll]
  cases hst : ((pr.recordAt (f.instrPc - d) f.instrPc).recordIteration t).2
  case cold | warming | failed => rfl
  case hot =>
    simp only [unit, reads_bind_run, readsMachine_bind_run, Frame.unit]
    cases hc : CompiledLoop.compile f.code.unit (f.instrPc - d) f.instrPc f.stack.size m.fastPaths
    · simp only [updateLoop_bind_run, Active.profile, Active.withProfile,
        Array.set!_eq_setIfInBounds, Array.getElem?_setIfInBounds_self_of_lt hp, Option.getD_some,
        Array.setIfInBounds_setIfInBounds]
      rfl
    · simp only [updateLoop_bind_run, Active.profile, Active.withProfile,
        Array.set!_eq_setIfInBounds, Array.getElem?_setIfInBounds_self_of_lt hp, Option.getD_some,
        reads_bind_run, Array.setIfInBounds_setIfInBounds, modifyMachine_bind_run,
        modify_setIfInBounds_self]
      rfl
  case ready =>
    simp only [reads_bind_run, readsMachine_bind_run, Array.set!_eq_setIfInBounds,
      Array.getElem?_setIfInBounds_self_of_lt hp, Option.bind_some]
    rfl

theorem count_bind_run (g : Stats → Stats) (f : Unit → Act β) (s : Active) :
    (count g >>= f) s = f () ⟨{ s.machine with stats := g s.machine.stats }, s.frame⟩ := rfl

/-- Entering keeps the frame's code.  It leaves the profile as it was, or with one more guard
failure counted against the back-edge's record, and that only after a compiled loop was offered;
it counts an entry only when one was offered. -/
theorem enterLoop_profile (header b depth : Nat) (e : Option CompiledLoop) (s : Active)
    (hp : s.frame.code.profile < s.machine.profiles.size) :
    (enterLoop header b depth e s).state.frame.code = s.frame.code ∧
      (((enterLoop header b depth e s).state.profile = s.profile ∧
          (e = none → (enterLoop header b depth e s).state.machine.stats.osrEntries =
            s.machine.stats.osrEntries)) ∨
        e.isSome ∧ (enterLoop header b depth e s).state.profile =
          s.profile.withLoop header b LoopInfo.recordDeopt) := by
  cases e with
  | none => exact ⟨rfl, .inl ⟨rfl, fun _ => rfl⟩⟩
  | some c =>
    unfold enterLoop
    dsimp only
    split
    · exact ⟨rfl, .inl ⟨rfl, nofun⟩⟩
    rw [count_bind_run]
    set s₁ : Active := ⟨{ s.machine with stats := _ }, s.frame⟩
    have hk := keepsTuning_runCompiled c loopBudget 0 s₁
    cases hr : runCompiled c loopBudget 0 s₁ with
    | ok x s₂ =>
      have hk₂ : s₁.SameTuning s₂ := by
        rw [hr] at hk
        exact hk
      have hkp₂ : s₂.profile = s.profile := hk₂.profile
      rw [EStateM.run_bind_of_ok hr]
      cases x with
      | leave pc => exact ⟨hk₂.code, .inl ⟨hkp₂, nofun⟩⟩
      | deopt pc =>
        dsimp only
        rw [count_bind_run, updateLoop_run]
        set s₃ : Active := ⟨{ s₂.machine with stats := _ }, s₂.frame⟩
        have hp₃ : s₃.frame.code.profile < s₃.machine.profiles.size := by
          have hprof : s₂.machine.profiles = s.machine.profiles :=
            congrArg Tuning.profiles hk₂.tuning
          show s₂.frame.code.profile < s₂.machine.profiles.size
          rw [hk₂.code, hprof]
          exact hp
        refine ⟨hk₂.code, .inr ⟨rfl, ?_⟩⟩
        show (s₃.withProfile _).profile = _
        rw [Active.profile_withProfile hp₃]
        exact congrArg (·.withLoop header b LoopInfo.recordDeopt) hkp₂
    | error e s₂ =>
      have hk₂ : s₁.SameTuning s₂ := by
        rw [hr] at hk
        exact hk
      have hkp₂ : s₂.profile = s.profile := hk₂.profile
      rw [EStateM.run_bind_of_error hr]
      exact ⟨hk₂.code, .inl ⟨hkp₂, nofun⟩⟩

theorem backEdge_of_lt {s : Active} {d : Nat} (hd : s.frame.instrPc < d) :
    backEdge d s =
      .error (.internal (.malformed "backward jump before the start of the code")) s := by
  unfold backEdge
  rw [reads_bind_run]
  dsimp only
  rw [if_pos (by simpa using hd)]
  rfl

end Act

namespace Active

/-- The decision of a back-edge `d` bytes back from the current instruction, with loops compiled
after `t` iterations. -/
def poll (s : Active) (d t : Nat) : Profile × Option CompiledLoop :=
  s.profile.poll s.frame.unit s.machine.fastPaths (s.frame.instrPc - d) s.frame.instrPc
    s.frame.stack.size t

/-- Whether a back-edge `d` bytes back from the current instruction runs compiled code: the
engine counts every entry into a compiled loop. -/
def entersLoop (s : Active) (d : Nat) : Prop :=
  (Act.backEdge d s).state.machine.stats.osrEntries ≠ s.machine.stats.osrEntries

/-- Whether a back-edge `d` bytes back from the current instruction compiles its loop: it lands
within the code, loops are compiled, and the iteration it counts turns the loop hot. -/
def compilesLoop (s : Active) (d : Nat) : Prop :=
  d ≤ s.frame.instrPc ∧ ∃ t, s.machine.config.osrThreshold = some t ∧
    ((s.profile.recordAt (s.frame.instrPc - d) s.frame.instrPc).recordIteration t).2 = .hot

/-- The compiled loop of a back-edge `d` bytes back from the current instruction, as that
back-edge compiles it. -/
def loopCompiled (s : Active) (d : Nat) : Except Rejection CompiledLoop :=
  CompiledLoop.compile s.frame.unit (s.frame.instrPc - d) s.frame.instrPc s.frame.stack.size
    s.machine.fastPaths

end Active

namespace Act

/-- Everything a back-edge does to the profile of its unit.  Before the start of the code or with
loops not compiled it leaves the profile as it was and enters nothing.  Otherwise it leaves the
profile as its decision left it, entering compiled code only when the decision offered it, or one
counted guard failure further on, after a decision that offered compiled code. -/
theorem backEdge_profile {s : Active} {d : Nat}
    (hp : s.frame.code.profile < s.machine.profiles.size) :
    (backEdge d s).state.frame.code = s.frame.code ∧
      ((¬ (d ≤ s.frame.instrPc ∧ s.machine.config.osrThreshold.isSome) ∧
          (backEdge d s).state.profile = s.profile ∧ ¬ s.entersLoop d) ∨
        ∃ t, s.machine.config.osrThreshold = some t ∧ d ≤ s.frame.instrPc ∧
          (((backEdge d s).state.profile = (s.poll d t).1 ∧
              ((s.poll d t).2 = none → ¬ s.entersLoop d)) ∨
            (s.poll d t).2.isSome ∧ (backEdge d s).state.profile =
              (s.poll d t).1.withLoop (s.frame.instrPc - d) s.frame.instrPc
                LoopInfo.recordDeopt)) := by
  have hpr : s.machine.profiles[s.frame.code.profile]? = some s.profile := by
    simp [Active.profile, hp]
  by_cases hd : d ≤ s.frame.instrPc
  · cases ht : s.machine.config.osrThreshold with
    | none =>
      have heq := backEdge_of_noThreshold hd ht
      refine ⟨by rw [heq]; rfl, .inl ⟨by simp, by rw [heq]; rfl, ?_⟩⟩
      unfold Active.entersLoop
      rw [heq]
      exact fun h => h rfl
    | some t =>
      have heq := backEdge_eq hd ht hpr
      set s₁ : Active :=
        ⟨{ s.machine with
            profiles := s.machine.profiles.set! s.frame.code.profile (s.poll d t).1 },
          { s.frame with pc := s.frame.instrPc - d }⟩
      have hp₁ : s₁.frame.code.profile < s₁.machine.profiles.size := by simpa [s₁] using hp
      have hprof₁ : s₁.profile = (s.poll d t).1 :=
        Active.profile_of_getElem? (by simp [s₁, hp])
      obtain ⟨hcode, h⟩ := enterLoop_profile (s.frame.instrPc - d) s.frame.instrPc
        s.frame.stack.size (s.poll d t).2 s₁ hp₁
      have hent : s.entersLoop d ↔ (enterLoop (s.frame.instrPc - d) s.frame.instrPc
          s.frame.stack.size (s.poll d t).2 s₁).state.machine.stats.osrEntries ≠
            s₁.machine.stats.osrEntries := by
        unfold Active.entersLoop
        rw [heq]
        rfl
      rw [heq]
      refine ⟨hcode, .inr ⟨t, rfl, hd, ?_⟩⟩
      rcases h with ⟨hprof, hnone⟩ | ⟨hsome, hprof⟩
      · exact .inl ⟨hprof.trans hprof₁, fun hn he => hent.1 he (hnone hn)⟩
      · exact .inr ⟨hsome, hprof.trans (by rw [hprof₁])⟩
  · have heq := backEdge_of_lt (Nat.lt_of_not_le hd)
    refine ⟨by rw [heq]; rfl, .inl ⟨fun h => hd h.1, by rw [heq]; rfl, ?_⟩⟩
    unfold Active.entersLoop
    rw [heq]
    exact fun h => h rfl

end Act

end StackVm
