import StackVm.Proofs.Retains.Machine
import StackVm.Proofs.Steady.Step

/-! Activations keep the store's objects.  An activation changes the machine only by running
machine computations, inside it (`Act.vm`) or as call-outs under its handled exception
(`Act.withContext`), and by changing the profiles and the counters; everything else it does is
to its own frame.  So every instruction, every handler search, every run of a compiled loop and
the instruction loop retain the store, provided the operations of the kit they call out through
do. -/

namespace StackVm

open EStateM (Keeps)

/-- A later state of an activation, on a machine that retains the store. -/
structure Active.Retains (s s' : Active) : Prop where
  machine : s.machine.Retains s'.machine

instance : Std.Refl Active.Retains := ⟨fun _ => ⟨refl_of _ _⟩⟩

instance : IsTrans Active Active.Retains := ⟨fun _ _ _ h₁ h₂ => ⟨trans_of _ h₁.machine h₂.machine⟩⟩

/-- A kit whose operations all retain the store. -/
structure Kit.Retains (k : Kit) : Prop where
  call : ∀ c args, Vm.Retains (k.call c args)
  run : ∀ f args, Vm.Retains (k.run f args)
  next : ∀ v, Vm.Retains (k.next v)

theorem Kit.retains_exhausted : Kit.exhausted.Retains :=
  ⟨fun _ _ => Keeps.throw _, fun _ _ => Keeps.throw _, fun _ => Keeps.throw _⟩

theorem Kit.Retains.iterate {k : Kit} (hk : k.Retains) (v : Value) : Vm.Retains (k.iterate v) :=
  Vm.retains_iterateWith hk.next v

namespace Act

variable {α β : Type}

/-- An activation computation that retains the store. -/
abbrev Retains (x : Act α) : Prop := Keeps Active.Retains x

/-! ### The primitives of an activation -/

theorem retains_vm {x : Vm α} (hx : Vm.Retains x) : Retains (vm x) := by
  rintro ⟨m, f⟩
  have h := hx m
  simp only [vm]
  split
  · next a m' hxm =>
    rw [hxm] at h
    exact ⟨h⟩
  · next e m' hxm =>
    rw [hxm] at h
    exact ⟨h⟩

theorem retains_reads (g : Frame → α) : Retains (reads g) := fun s => refl_of _ s

theorem retains_readsMachine (g : Machine → α) : Retains (readsMachine g) := fun s => refl_of _ s

theorem retains_modifyFrame (g : Frame → Frame) : Retains (modifyFrame g) :=
  fun ⟨m, _⟩ => ⟨refl_of _ m⟩

theorem retains_modifyMachine {g : Machine → Machine} (hg : ∀ m : Machine, (g m).heap = m.heap)
    (hl : ∀ (m : Machine) p, m.BackEdgesTo p (g m)) : Retains (modifyMachine g) :=
  fun ⟨m, _⟩ => ⟨⟨(hg m).symm ▸ Heap.Retains.refl m.heap, hl m⟩⟩

theorem retains_heap : Retains heap := retains_readsMachine _

theorem retains_unit : Retains unit := retains_reads _

/-- A call-out runs on the machine with another context, which comes back with the store the
call-out left. -/
theorem retains_withContext {x : Vm α} (hx : Vm.Retains x) : Retains (withContext x) := by
  rintro ⟨m, f⟩
  have h := hx { m with context := f.currentHandled }
  simp only [withContext]
  split
  · next a m' hxm =>
    rw [hxm] at h
    exact ⟨⟨h.heap, h.loops⟩⟩
  · next e m' hxm =>
    rw [hxm] at h
    exact ⟨⟨h.heap, h.loops⟩⟩

theorem retains_stackFault (overflow : Bool) : Retains (stackFault overflow) := retains_reads _

theorem retains_checkStack (c : Prop) [Decidable c] (b : Bool) (f : Unit → Act β)
    (hf : Retains (f ())) :
    Retains (if c then (do let e ← stackFault b; let r ← throw e; f r) else f ()) :=
  Keeps.ite (fun _ => (retains_stackFault _).bind fun _ => Keeps.throw _) fun _ => hf

theorem retains_push (v : Value) : Retains (push v) := by
  refine (retains_reads _).bind fun full => ?_
  dsimp only
  exact retains_checkStack _ _ _ (retains_modifyFrame _)

theorem retains_peek : Retains peek := by
  refine (retains_reads _).bind fun v => ?_
  split
  · exact Keeps.pure _
  · exact (retains_stackFault _).bind fun _ => Keeps.throw _

theorem retains_peekAt (depth : Nat) : Retains (peekAt depth) := by
  refine (retains_reads _).bind fun v => ?_
  split
  · exact Keeps.pure _
  · exact (retains_stackFault _).bind fun _ => Keeps.throw _

theorem retains_pop : Retains pop := by
  refine retains_peek.bind fun _ => (Keeps.bind ?_ fun _ => Keeps.pure _)
  exact retains_modifyFrame _

theorem retains_popN (n : Nat) : Retains (popN n) := by
  refine (retains_reads _).bind fun size => ?_
  dsimp only
  refine retains_checkStack _ _ _ ((retains_reads _).bind fun _ => Keeps.bind ?_ fun _ => Keeps.pure _)
  exact retains_modifyFrame _

theorem retains_rotate (n : Nat) : Retains (rotate n) := by
  refine (retains_reads _).bind fun size => ?_
  dsimp only
  refine retains_checkStack _ _ _ (retains_pop.bind fun _ => (retains_popN _).bind fun _ => ?_)
  exact retains_modifyFrame _

theorem retains_internal (msg : String) : Retains (internal msg : Act α) := Keeps.throw _

theorem retains_raise (r : Raise) : Retains (raise r : Act α) := retains_vm (Vm.retains_raise r)

theorem retains_ofExcept (x : Except Raise α) : Retains (ofExcept x) :=
  retains_vm (Vm.retains_ofExcept x)

/-! ### Operands, slots, cells and the namespace -/

theorem retains_nextByte : Retains nextByte :=
  (retains_reads _).bind fun _ => (retains_modifyFrame _).bind fun _ => Keeps.pure _

theorem retains_nextWord : Retains nextWord :=
  (retains_reads _).bind fun _ => (retains_modifyFrame _).bind fun _ => Keeps.pure _

theorem retains_nextSignedWord : Retains nextSignedWord :=
  (retains_reads _).bind fun _ => (retains_modifyFrame _).bind fun _ => Keeps.pure _

theorem retains_jumpBy (d : Int) : Retains (jumpBy d) := retains_modifyFrame _

theorem retains_jumpTo (pc : Nat) : Retains (jumpTo pc) := retains_modifyFrame _

theorem retains_nameAt (i : Nat) : Retains (nameAt i) := retains_reads _

theorem retains_unboundLocal (slot : Nat) : Retains (unboundLocal slot : Act α) :=
  (retains_reads _).bind fun _ => retains_raise _

theorem retains_loadLocal (slot : Nat) : Retains (loadLocal slot) := by
  refine (retains_reads _).bind fun v => ?_
  split
  · exact Keeps.pure _
  · exact retains_unboundLocal _
  · exact retains_internal _

theorem retains_deleteLocal (slot : Nat) : Retains (deleteLocal slot) := by
  refine (retains_reads _).bind fun v => ?_
  split
  · exact retains_modifyFrame _
  · exact retains_unboundLocal _
  · exact retains_internal _

theorem retains_storeLocal (slot : Nat) (v : Value) : Retains (storeLocal slot v) := by
  refine (retains_reads _).bind fun size => ?_
  exact Keeps.ite (fun _ => retains_modifyFrame _) fun _ => retains_internal _

theorem retains_cellAt (i : Nat) : Retains (cellAt i) := by
  refine (retains_reads _).bind fun v => ?_
  split
  · exact Keeps.pure _
  · exact retains_internal _

theorem retains_unboundCell (i : Nat) : Retains (unboundCell i : Act α) :=
  retains_unit.bind fun _ => Keeps.ite (fun _ => retains_raise _) fun _ => retains_raise _

theorem retains_cellContent (a : Addr) : Retains (cellContent a) := by
  refine retains_vm ((Vm.retains_obj a).bind fun o => ?_)
  split
  · exact Keeps.pure _
  · exact Vm.retains_internal _

theorem retains_setCell (a : Addr) (v : Option Value) : Retains (setCell a v) :=
  retains_vm (Vm.retains_modifyObj _ fun o => by cases o <;> rfl)

theorem retains_globals : Retains globals := by
  refine (retains_reads _).bind fun a => retains_heap.bind fun h => ?_
  split
  · exact Keeps.pure _
  · exact retains_internal _

theorem retains_modifyGlobals (g : Globals → Globals) : Retains (modifyGlobals g) :=
  (retains_reads _).bind fun _ => retains_vm (Vm.retains_modifyObj _ fun o => by cases o <;> rfl)

theorem retains_lookupGlobal (name : String) : Retains (lookupGlobal name) := by
  refine retains_globals.bind fun g => ?_
  split
  · exact Keeps.pure _
  · exact retains_readsMachine _

/-! ### Sites and counters -/

theorem retains_site : Retains site := (retains_reads _).bind fun _ => retains_readsMachine _

theorem retains_setSite (s : Site) : Retains (setSite s) :=
  (retains_reads _).bind fun _ =>
    retains_modifyMachine (fun _ => rfl) fun _ _ => by
      refine .modify ?_ _
      exact fun _ => ⟨rfl, rfl⟩

theorem retains_count (g : Stats → Stats) : Retains (count g) :=
  retains_modifyMachine (fun _ => rfl) fun _ _ => .of_profiles rfl

theorem retains_hit : Retains hit := retains_count _

theorem retains_missAt (s : Site) : Retains (missAt s) :=
  (retains_setSite _).bind fun _ => retains_count _

theorem retains_settle (s : Site) (c : SiteCache) : Retains (settle s c) :=
  (retains_setSite _).bind fun _ => retains_count _

theorem retains_specializing : Retains specializing := retains_readsMachine _

theorem retains_noteOperator (kind : SiteCache) (hits : SiteCache → Bool) :
    Retains (noteOperator kind hits) :=
  keeps_noteOperator (retains_readsMachine _) retains_site retains_setSite retains_count kind hits

theorem retains_leaveAt (pc : Nat) : Retains (leaveAt pc) :=
  (retains_jumpTo pc).bind fun _ => Keeps.pure _

theorem retains_deoptAt (pc : Nat) : Retains (deoptAt pc) :=
  (retains_jumpTo pc).bind fun _ => Keeps.pure _

variable {k : Kit}

/-! ### Names, attributes and calls -/

theorem retains_loadGlobal (index : Nat) : Retains (loadGlobal index) := by
  unfold loadGlobal
  refine (retains_nameAt _).bind fun name => (retains_reads _).bind fun ga => ?_
  refine retains_globals.bind fun g => retains_specializing.bind fun spec => ?_
  dsimp only
  repeat' with_reducible first
    | exact Keeps.pure _
    | exact retains_raise _
    | exact retains_settle _ _
    | exact retains_missAt _
    | exact retains_site
    | exact retains_hit
    | exact retains_lookupGlobal _
    | refine Keeps.ite (fun _ => ?_) fun _ => ?_
    | refine Keeps.bind ?_ fun _ => ?_
    | split

theorem retains_loadAttr (obj : Value) (index : Nat) : Retains (loadAttr obj index) := by
  unfold loadAttr
  refine (retains_nameAt _).bind fun name => ?_
  dsimp only
  repeat' with_reducible first
    | exact Keeps.pure _
    | exact retains_vm (Ops.retains_getAttr _ _)
    | exact retains_specializing
    | exact retains_heap
    | exact retains_site
    | exact retains_hit
    | exact retains_missAt _
    | exact retains_settle _ _
    | refine Keeps.ite (fun _ => ?_) fun _ => ?_
    | refine Keeps.bind ?_ fun _ => ?_
    | split

theorem retains_callTarget (callable : Value) (argc : Nat) : Retains (callTarget callable argc) := by
  unfold callTarget
  repeat' with_reducible first
    | exact Keeps.pure _
    | exact retains_specializing
    | exact retains_heap
    | exact retains_site
    | exact retains_hit
    | exact retains_missAt _
    | exact retains_settle _ _
    | refine Keeps.ite (fun _ => ?_) fun _ => ?_
    | refine Keeps.bind ?_ fun _ => ?_
    | split

theorem retains_spread (hk : k.Retains) (v : Value) : Retains (spread k v) := by
  refine retains_heap.bind fun h => ?_
  split
  · exact Keeps.pure _
  · exact Keeps.pure _
  · exact retains_withContext (hk.iterate v)

theorem retains_callFromStack (hk : k.Retains) (argc : Nat) : Retains (callFromStack k argc) := by
  refine (retains_popN _).bind fun args => retains_pop.bind fun callable => ?_
  refine (retains_callTarget _ _).bind fun direct => ?_
  refine (retains_withContext ?_).bind retains_push
  split
  · exact hk.run _ _
  · exact hk.call _ _

theorem retains_callVarargs (hk : k.Retains) : Retains (callVarargs k) :=
  retains_pop.bind fun _ => retains_pop.bind fun _ => (retains_spread hk _).bind fun _ =>
    (retains_withContext (hk.call _ _)).bind retains_push

theorem retains_callMethod (hk : k.Retains) (name : String) (argc : Nat) :
    Retains (callMethod k name argc) :=
  (retains_popN _).bind fun _ => retains_pop.bind fun _ =>
    (retains_vm (Ops.retains_getAttr _ _)).bind fun _ =>
      (retains_withContext (hk.call _ _)).bind retains_push

/-! ### Functions, operators and containers -/

theorem retains_closureCells (v : Value) : Retains (closureCells v) := by
  refine retains_heap.bind fun h => ?_
  split
  · refine Keeps.mapM_array (fun x => ?_) _
    split
    · exact Keeps.pure _
    · exact retains_internal _
  · exact retains_internal _

theorem retains_makeFunction (index flags : Nat) : Retains (makeFunction index flags) := by
  unfold makeFunction
  refine retains_unit.bind fun u => ?_
  dsimp only
  repeat' with_reducible first
    | exact Keeps.pure _
    | exact retains_internal _
    | exact retains_pop
    | exact retains_heap
    | exact retains_reads _
    | exact retains_closureCells _
    | exact retains_vm (Vm.retains_newFunction _ _ _ _)
    | exact retains_push _
    | refine Keeps.ite (fun _ => ?_) fun _ => ?_
    | refine Keeps.bind ?_ fun _ => ?_
    | split

theorem retains_binaryOp (op : BinaryOp) : Retains (binaryOp op) :=
  retains_pop.bind fun _ => retains_pop.bind fun _ => retains_heap.bind fun _ =>
    (retains_noteOperator _ _).bind fun _ =>
      (retains_vm (binaryAt_cases op (Ops.retains_binary _ _ _)
        (fun _ => (Vm.retains_ofExcept _).bind Vm.retains_num)
        (fun _ => (Vm.retains_ofExcept _).bind fun _ => Keeps.pure _) Vm.retains_str)).bind
        retains_push

theorem retains_compareOp (op : CompareOp) : Retains (compareOp op) :=
  retains_pop.bind fun _ => retains_pop.bind fun _ => retains_heap.bind fun _ =>
    (retains_noteOperator _ _).bind fun _ => (retains_ofExcept _).bind fun _ => retains_push _

theorem retains_buildDict (n : Nat) : Retains (buildDict n) := by
  refine (retains_popN _).bind fun items => ?_
  refine (Keeps.forIn_list (fun kv es => ?_) _ _).bind fun es => ?_
  · exact retains_heap.bind fun _ => (retains_ofExcept _).bind fun _ =>
      retains_heap.bind fun _ => Keeps.pure _
  · exact (retains_vm (Vm.retains_alloc _)).bind fun a => retains_push _

theorem retains_buildSet (n : Nat) : Retains (buildSet n) := by
  refine (retains_popN _).bind fun items => ?_
  refine (Keeps.forIn_array (fun v xs => ?_) _ _).bind fun xs => ?_
  · exact retains_heap.bind fun _ => (retains_ofExcept _).bind fun _ =>
      retains_heap.bind fun _ => Keeps.pure _
  · exact (retains_vm (Vm.retains_alloc _)).bind fun a => retains_push _

theorem retains_unpackSequence (hk : k.Retains) (n : Nat) : Retains (unpackSequence k n) := by
  refine retains_pop.bind fun v => (retains_spread hk v).bind fun items => ?_
  dsimp only
  refine Keeps.ite (fun _ => (retains_raise _).bind fun _ => ?_) fun _ => ?_ <;>
  · refine Keeps.ite (fun _ => (retains_raise _).bind fun _ => ?_) fun _ => ?_ <;>
    exact (Keeps.forIn_array (fun v _ => (retains_push v).bind fun _ => Keeps.pure _) _ _).bind
      fun _ => Keeps.pure _

/-! ### Raising and handling -/

theorem retains_raiseChained (exc : Addr) : Retains (raiseChained exc : Act α) :=
  (retains_reads _).bind fun _ => (retains_vm (Vm.retains_chainContext _ _)).bind fun _ =>
    Keeps.throw _

theorem retains_raiseFrom : Retains (raiseFrom : Act α) := by
  refine retains_pop.bind fun _ => retains_pop.bind fun _ => ?_
  refine (retains_vm (Vm.retains_excOfValue _)).bind fun exc => ?_
  dsimp only
  refine Keeps.ite (fun _ => (Keeps.pure _).bind fun _ => ?_)
    (fun _ => ((retains_vm (Vm.retains_excOfValue _)).map _).bind fun _ => ?_) <;>
  exact (retains_vm (Vm.retains_setCause _ _)).bind fun _ => retains_raiseChained _

theorem retains_reraise : Retains (reraise : Act α) := by
  refine (retains_reads _).bind fun hd => ?_
  split
  · exact Keeps.throw _
  · exact retains_raise _

theorem retains_checkExcMatch : Retains checkExcMatch := by
  refine retains_pop.bind fun _ => retains_peek.bind fun top => retains_heap.bind fun h => ?_
  split
  · exact (retains_ofExcept _).bind fun _ => retains_push _
  · exact retains_internal _

theorem retains_popExcept : Retains popExcept := by
  refine (retains_reads _).bind fun empty => ?_
  dsimp only
  refine Keeps.ite (fun _ => (retains_internal _).bind fun _ => ?_) fun _ => ?_ <;>
  exact retains_modifyFrame _

/-! ### Compiled loops -/

theorem retains_loopStep (c : CompiledLoop) (index : Nat) : Retains (loopStep c index) := by
  unfold loopStep
  dsimp only
  repeat' with_reducible first
    | exact Keeps.pure _
    | exact (retains_leaveAt _).map _
    | exact (retains_deoptAt _).map _
    | exact retains_reads _
    | exact retains_push _
    | exact retains_pop
    | exact retains_peek
    | exact retains_peekAt _
    | exact retains_popN _
    | exact retains_rotate _
    | exact retains_heap
    | exact retains_storeLocal _ _
    | exact retains_vm (Vm.retains_num _)
    | exact (retains_vm (Ops.retains_iterNext _ _)).map _
    | exact (retains_modifyFrame _).bind fun _ => Keeps.throw _
    | refine Keeps.tryCatch ?_ fun _ => ?_
    | refine Keeps.ite (fun _ => ?_) fun _ => ?_
    | refine Keeps.bind ?_ fun _ => ?_
    | split

theorem retains_runCompiled (c : CompiledLoop) : ∀ fuel index, Retains (runCompiled c fuel index)
  | 0, _ => Keeps.throw _
  | fuel + 1, index => by
    refine (retains_loopStep c index).bind fun r => ?_
    cases r with
    | next i => exact retains_runCompiled c fuel i
    | exit e => exact Keeps.pure _

end Act

/-- A later state on the same code, on a machine that retains the store and holds every profile
as before but the one of the frame's unit. -/
structure Active.OnOwnProfile (s s' : Active) : Prop where
  heap : s.machine.heap.Retains s'.machine.heap
  code : s'.frame.code = s.frame.code
  profiles : s'.machine.profiles = s.machine.profiles.set! s.frame.code.profile s'.profile

namespace Active

/-- A change of the profile of the frame's unit sets that profile, changed, in its place. -/
theorem modify_profile (s : Active) (g : Profile → Profile) :
    s.machine.profiles.modify s.frame.code.profile g =
      s.machine.profiles.set! s.frame.code.profile (g s.profile) := by
  apply Array.ext_getElem?
  intro q
  simp only [Array.getElem?_modify, Array.set!_eq_setIfInBounds, Array.getElem?_setIfInBounds,
    Active.profile]
  split
  · next h =>
    subst h
    split
    · next hq => simp [Array.getElem?_eq_getElem hq]
    · next hq => simp [Array.getElem?_eq_none (Nat.le_of_not_lt hq)]
  · rfl

theorem set_profile (s : Active) :
    s.machine.profiles.set! s.frame.code.profile s.profile = s.machine.profiles :=
  calc s.machine.profiles.set! s.frame.code.profile s.profile
      = s.machine.profiles.modify s.frame.code.profile id := (modify_profile s id).symm
    _ = s.machine.profiles := by
      apply Array.ext_getElem?
      intro q
      simp [Array.getElem?_modify]

namespace OnOwnProfile

variable {s s' : Active}

theorem of_set (hh : s.machine.heap.Retains s'.machine.heap) (hc : s'.frame.code = s.frame.code)
    {X : Profile} (hp : s'.machine.profiles = s.machine.profiles.set! s.frame.code.profile X) :
    OnOwnProfile s s' := by
  refine ⟨hh, hc, ?_⟩
  rw [hp]
  by_cases h : s.frame.code.profile < s.machine.profiles.size
  · have hX : s'.profile = X := by simp [Active.profile, hp, hc, h]
    rw [hX]
  · simp [Array.set!_eq_setIfInBounds, Array.setIfInBounds, h]

/-- A change of the frame that keeps its code. -/
theorem of_frame {m : Machine} {f f' : Frame} (hc : f'.code = f.code) :
    OnOwnProfile ⟨m, f⟩ ⟨m, f'⟩ :=
  of_set (.refl m.heap) hc (set_profile ⟨m, f⟩).symm

instance : Std.Refl OnOwnProfile := ⟨fun _ => of_frame rfl⟩

instance : IsTrans Active OnOwnProfile :=
  ⟨fun _ _ _ h₁ h₂ => ⟨h₁.heap.trans h₂.heap, h₂.code.trans h₁.code, by
    rw [h₂.profiles, h₁.profiles, h₁.code, Array.set!_eq_setIfInBounds,
      Array.set!_eq_setIfInBounds, Array.set!_eq_setIfInBounds,
      Array.setIfInBounds_setIfInBounds]⟩⟩

end OnOwnProfile

end Active

namespace Act

variable {α β : Type} {k : Kit}

/-! ### Back-edges -/

/-- An activation computation that retains the store, keeps the frame's code and changes no profile
but the one of the frame's unit. -/
abbrev OnOwnProfile (x : Act α) : Prop := Keeps Active.OnOwnProfile x

theorem onOwnProfile_reads (g : Frame → α) : OnOwnProfile (reads g) := fun s => refl_of _ s

theorem onOwnProfile_readsMachine (g : Machine → α) : OnOwnProfile (readsMachine g) :=
  fun s => refl_of _ s

theorem onOwnProfile_jumpTo (pc : Nat) : OnOwnProfile (jumpTo pc) :=
  fun _ => Active.OnOwnProfile.of_frame rfl

theorem onOwnProfile_count (g : Stats → Stats) : OnOwnProfile (count g) :=
  fun s => .of_set (.refl _) rfl (Active.set_profile s).symm

theorem onOwnProfile_updateLoop (header b : Nat) (g : LoopInfo → LoopInfo × α) :
    OnOwnProfile (updateLoop header b g) := fun s => by
  rw [updateLoop_run]
  exact .of_set (.refl _) rfl rfl

/-- The compiled loop a back-edge adds goes to the profile of the frame's unit. -/
theorem onOwnProfile_modifyProfile (g : Profile → Profile) (f : Unit → Act β)
    (hf : OnOwnProfile (f ())) :
    OnOwnProfile (reads (·.code.profile) >>= fun p =>
      modifyMachine (fun m => { m with profiles := m.profiles.modify p g }) >>= f) := by
  intro s
  have h₁ : Active.OnOwnProfile s ⟨{ s.machine with
      profiles := s.machine.profiles.modify s.frame.code.profile g }, s.frame⟩ :=
    .of_set (.refl _) rfl (Active.modify_profile s g)
  exact trans_of _ h₁ (hf _)

theorem onOwnProfile_runCompiled (c : CompiledLoop) (fuel index : Nat) :
    OnOwnProfile (runCompiled c fuel index) := fun s =>
  have ht := keepsTuning_runCompiled c fuel index s
  have hp : (runCompiled c fuel index s).state.machine.profiles = s.machine.profiles :=
    congrArg Tuning.profiles ht.tuning
  .of_set (retains_runCompiled c fuel index s).machine.heap ht.code
    (hp.trans (Active.set_profile s).symm)

theorem onOwnProfile_backEdge (d : Nat) : OnOwnProfile (backEdge d) := by
  unfold backEdge
  refine (onOwnProfile_reads _).bind fun backEdgePc => ?_
  dsimp only [internal, unit]
  repeat' with_reducible first
    | exact Keeps.pure _
    | exact Keeps.throw (ε := Fault) _
    | exact onOwnProfile_reads _
    | exact onOwnProfile_readsMachine _
    | exact onOwnProfile_jumpTo _
    | exact onOwnProfile_count _
    | exact onOwnProfile_updateLoop _ _ _
    | exact onOwnProfile_runCompiled _ _ _
    | refine onOwnProfile_modifyProfile _ _ ?_
    | refine Keeps.ite (fun _ => ?_) fun _ => ?_
    | refine Keeps.bind ?_ fun _ => ?_
    | split

/-- A back-edge is one call of a run of back-edges on the profile of its unit, and leaves the
loop records of every other profile alone. -/
theorem backEdgesTo_backEdge (d : Nat) (s : Active) (p : Nat) :
    s.machine.BackEdgesTo p (backEdge d s).state.machine := by
  have h := onOwnProfile_backEdge d s
  intro pr hpr
  by_cases hp : s.frame.code.profile = p
  · subst hp
    have hlt := (Array.getElem?_eq_some_iff.1 hpr).1
    refine ⟨[(s, d)], _, _, .cons rfl hpr rfl rfl (.nil _), ?_, rfl, rfl⟩
    rw [h.profiles, Array.set!_eq_setIfInBounds, Array.getElem?_setIfInBounds_self_of_lt hlt]
  · refine ⟨[], pr, pr, .nil pr, ?_, rfl, rfl⟩
    rw [h.profiles, Array.set!_eq_setIfInBounds, Array.getElem?_setIfInBounds_ne hp]
    exact hpr

theorem retains_backEdge (distance : Nat) : Retains (backEdge distance) :=
  fun s => ⟨⟨(onOwnProfile_backEdge distance s).heap, backEdgesTo_backEdge distance s⟩⟩

/-! ### Instructions and the instruction loop -/

/-- Every instruction retains the store when the kit does: each one is a sequence of the steps
above. -/
theorem retains_exec (hk : k.Retains) (op : Opcode) : Retains (exec k op) := by
  unfold exec
  cases op
  all_goals
    dsimp only
    repeat' with_reducible first
      | exact Keeps.pure _
      | exact retains_pop
      | exact retains_push _
      | exact retains_nextWord
      | exact retains_nextByte
      | exact retains_nextSignedWord
      | exact retains_peek
      | exact retains_peekAt _
      | exact retains_popN _
      | exact retains_rotate _
      | exact retains_unit
      | exact retains_reads _
      | exact retains_heap
      | exact retains_nameAt _
      | exact retains_raise _
      | exact retains_ofExcept _
      | exact retains_jumpBy _
      | exact retains_loadLocal _
      | exact retains_storeLocal _ _
      | exact retains_deleteLocal _
      | exact retains_cellAt _
      | exact retains_cellContent _
      | exact retains_setCell _ _
      | exact retains_unboundCell _
      | exact retains_loadGlobal _
      | exact retains_globals
      | exact retains_modifyGlobals _
      | exact retains_binaryOp _
      | exact retains_compareOp _
      | exact retains_buildDict _
      | exact retains_buildSet _
      | exact retains_unpackSequence hk _
      | exact retains_loadAttr _ _
      | exact retains_backEdge _
      | exact retains_callFromStack hk _
      | exact retains_callVarargs hk
      | exact retains_callMethod hk _ _
      | exact retains_makeFunction _ _
      | exact retains_raiseChained _
      | exact retains_raiseFrom
      | exact retains_reraise
      | exact retains_checkExcMatch
      | exact retains_popExcept
      | exact retains_withContext (hk.next _)
      | exact retains_vm (Ops.retains_unary _ _)
      | exact retains_vm (Vm.retains_list _)
      | exact retains_vm (Vm.retains_tuple _)
      | exact retains_vm (Ops.retains_getItem _ _)
      | exact retains_vm (Ops.retains_setItem _ _ _)
      | exact retains_vm (Ops.retains_delItem _ _)
      | exact retains_vm (Ops.retains_setAttr _ _ _)
      | exact retains_vm (Ops.retains_delAttr _ _)
      | exact retains_vm (Ops.retains_getIter _)
      | exact retains_vm (Vm.retains_excOfValue _)
      | exact retains_vm (Vm.retains_importModule _)
      | exact retains_vm (Vm.retains_importFrom _ _)
      | refine Keeps.ite (fun _ => ?_) fun _ => ?_
      | refine Keeps.bind ?_ fun _ => ?_
      | split

theorem retains_step (hk : k.Retains) : Retains (step k) := by
  refine (retains_modifyFrame _).bind fun _ => retains_nextByte.bind fun b => ?_
  split
  · exact retains_exec hk _
  · exact retains_internal _

theorem retains_dispatch (exc : Addr) : Retains (dispatch exc) := by
  unfold dispatch
  refine (retains_reads _).bind fun r => ?_
  split
  · exact (retains_modifyFrame _).bind fun _ => Keeps.throw _
  · exact (retains_modifyFrame _).bind fun _ => (retains_push _).bind fun _ =>
      retains_modifyFrame _

theorem retains_unwind (err : Fault) : Retains (unwind err) := by
  unfold unwind
  split
  · refine (retains_vm (Vm.retains_exc _)).bind fun e => ?_
    dsimp only
    refine Keeps.ite (fun _ => (retains_reads _).bind fun _ =>
      (retains_vm (Vm.retains_chainContext _ _)).bind fun _ => ?_) fun _ => ?_ <;>
    · exact (retains_reads _).bind fun _ => (retains_vm (Vm.retains_modifyExc _ _)).bind fun _ =>
        retains_dispatch _
  · exact Keeps.throw _

theorem retains_execLoop (hk : k.Retains) : ∀ fuel, Retains (execLoop k fuel)
  | 0 => fun s => refl_of _ s
  | fuel + 1 => fun s => by
    have hstep := retains_step hk s
    simp only [execLoop]
    split
    · next t hst =>
      rw [hst] at hstep
      exact trans_of _ hstep (retains_execLoop hk fuel t)
    · next e t hst =>
      rw [hst] at hstep
      exact hstep
    · next err t hst =>
      rw [hst] at hstep
      have hunwind := retains_unwind err t
      split
      · next u hu =>
        rw [hu] at hunwind
        exact trans_of _ hstep (trans_of _ hunwind (retains_execLoop hk fuel u))
      · next e u hu =>
        rw [hu] at hunwind
        exact trans_of _ hstep hunwind

end Act

end StackVm
