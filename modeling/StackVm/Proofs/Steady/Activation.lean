import StackVm.Proofs.Steady.Machine

/-! Activations that give back the engine's bookkeeping.  A state of an activation is steady
with respect to an earlier one when its machine is (`Machine.Steady`) and its frame still runs
the code object it started with, under the context it inherited when it was entered.  Every instruction, every handler search and every run of a
compiled loop keeps its activation steady, provided the operations of the kit it calls out
through do: the counts and the context they change on their way come back before the
instruction goes on.  Call-outs run under the frame's handled exception as their context, which
`Act.withContext` puts back whatever the call-out leaves. -/

namespace StackVm

open EStateM (Keeps)

/-- A later state of an activation: a steady machine under a frame running the same code under
the same inherited context. -/
structure Active.Steady (s s' : Active) : Prop where
  machine : s.machine.Steady s'.machine
  code : s'.frame.code = s.frame.code
  inherited : s'.frame.inherited = s.frame.inherited

instance : Std.Refl Active.Steady := ⟨fun _ => ⟨refl_of _ _, rfl, rfl⟩⟩

instance : IsTrans Active Active.Steady :=
  ⟨fun _ _ _ h₁ h₂ => ⟨trans_of _ h₁.machine h₂.machine, h₂.code.trans h₁.code,
    h₂.inherited.trans h₁.inherited⟩⟩

/-- A kit whose operations are all steady machine computations. -/
structure Kit.Steady (k : Kit) : Prop where
  call : ∀ c args, Vm.Steady (k.call c args)
  run : ∀ f args, Vm.Steady (k.run f args)
  next : ∀ v, Vm.Steady (k.next v)

theorem Kit.steady_exhausted : Kit.exhausted.Steady :=
  ⟨fun _ _ => Keeps.throw _, fun _ _ => Keeps.throw _, fun _ => Keeps.throw _⟩

theorem Kit.Steady.iterate {k : Kit} (hk : k.Steady) (v : Value) : Vm.Steady (k.iterate v) :=
  Vm.steady_iterateWith hk.next v

namespace Act

variable {α β : Type}

/-- An activation computation that keeps its activation steady. -/
abbrev Steady (x : Act α) : Prop := Keeps Active.Steady x

/-! ### The primitives of an activation -/

theorem steady_vm {x : Vm α} (hx : Vm.Steady x) : Steady (vm x) := by
  rintro ⟨m, f⟩
  have h := hx m
  simp only [vm]
  split
  · next a m' hxm =>
    rw [hxm] at h
    exact ⟨h, rfl, rfl⟩
  · next e m' hxm =>
    rw [hxm] at h
    exact ⟨h, rfl, rfl⟩

theorem steady_reads (g : Frame → α) : Steady (reads g) := fun s => refl_of _ s

theorem steady_readsMachine (g : Machine → α) : Steady (readsMachine g) := fun s => refl_of _ s

theorem steady_modifyFrame {g : Frame → Frame}
    (hg : ∀ f, (g f).code = f.code ∧ (g f).inherited = f.inherited) :
    Steady (modifyFrame g) := fun ⟨_, f⟩ => ⟨refl_of _ _, (hg f).1, (hg f).2⟩

theorem steady_modifyMachine {g : Machine → Machine} (hg : ∀ m : Machine, m.Steady (g m)) :
    Steady (modifyMachine g) := fun ⟨m, _⟩ => ⟨hg m, rfl, rfl⟩

theorem steady_heap : Steady heap := steady_readsMachine _

theorem steady_unit : Steady unit := steady_reads _

/-- A call-out runs under the frame's handled exception and gives the context back, also when
it fails; only the depth count is left to the computation itself. -/
theorem steady_withContext {x : Vm α} (hx : Vm.Steady x) : Steady (withContext x) := by
  rintro ⟨m, f⟩
  have h := hx { m with context := f.currentHandled }
  simp only [withContext]
  split
  · next a m' hxm =>
    rw [hxm] at h
    exact ⟨⟨h.depth, rfl⟩, rfl, rfl⟩
  · next e m' hxm =>
    rw [hxm] at h
    exact ⟨⟨h.depth, rfl⟩, rfl, rfl⟩

theorem steady_stackFault (overflow : Bool) : Steady (stackFault overflow) := steady_reads _

theorem steady_checkStack (c : Prop) [Decidable c] (b : Bool) (f : Unit → Act β)
    (hf : Steady (f ())) :
    Steady (if c then (do let e ← stackFault b; let r ← throw e; f r) else f ()) :=
  Keeps.ite (fun _ => (steady_stackFault _).bind fun _ => Keeps.throw _) fun _ => hf

theorem steady_push (v : Value) : Steady (push v) := by
  refine (steady_reads _).bind fun full => ?_
  dsimp only
  exact steady_checkStack _ _ _ (steady_modifyFrame fun _ => ⟨by rfl, by rfl⟩)

theorem steady_peek : Steady peek := by
  refine (steady_reads _).bind fun v => ?_
  split
  · exact Keeps.pure _
  · exact (steady_stackFault _).bind fun _ => Keeps.throw _

theorem steady_peekAt (depth : Nat) : Steady (peekAt depth) := by
  refine (steady_reads _).bind fun v => ?_
  split
  · exact Keeps.pure _
  · exact (steady_stackFault _).bind fun _ => Keeps.throw _

theorem steady_pop : Steady pop := by
  refine steady_peek.bind fun _ => (Keeps.bind ?_ fun _ => Keeps.pure _)
  exact steady_modifyFrame fun _ => ⟨by rfl, by rfl⟩

theorem steady_popN (n : Nat) : Steady (popN n) := by
  refine (steady_reads _).bind fun size => ?_
  dsimp only
  refine steady_checkStack _ _ _ ((steady_reads _).bind fun _ => Keeps.bind ?_ fun _ => Keeps.pure _)
  exact steady_modifyFrame fun _ => ⟨by rfl, by rfl⟩

theorem steady_rotate (n : Nat) : Steady (rotate n) := by
  refine (steady_reads _).bind fun size => ?_
  dsimp only
  refine steady_checkStack _ _ _ (steady_pop.bind fun _ => (steady_popN _).bind fun _ => ?_)
  exact steady_modifyFrame fun _ => ⟨by rfl, by rfl⟩

theorem steady_internal (msg : String) : Steady (internal msg : Act α) := Keeps.throw _

theorem steady_raise (r : Raise) : Steady (raise r : Act α) := steady_vm (Vm.steady_raise r)

theorem steady_ofExcept (x : Except Raise α) : Steady (ofExcept x) :=
  steady_vm (Vm.steady_ofExcept x)

/-! ### Operands, slots, cells and the namespace -/

theorem steady_nextByte : Steady nextByte :=
  (steady_reads _).bind fun _ => (steady_modifyFrame fun _ => ⟨by rfl, by rfl⟩).bind fun _ => Keeps.pure _

theorem steady_nextWord : Steady nextWord :=
  (steady_reads _).bind fun _ => (steady_modifyFrame fun _ => ⟨by rfl, by rfl⟩).bind fun _ => Keeps.pure _

theorem steady_nextSignedWord : Steady nextSignedWord :=
  (steady_reads _).bind fun _ => (steady_modifyFrame fun _ => ⟨by rfl, by rfl⟩).bind fun _ => Keeps.pure _

theorem steady_jumpBy (d : Int) : Steady (jumpBy d) := steady_modifyFrame fun _ => ⟨by rfl, by rfl⟩

theorem steady_jumpTo (pc : Nat) : Steady (jumpTo pc) := steady_modifyFrame fun _ => ⟨by rfl, by rfl⟩

theorem steady_nameAt (i : Nat) : Steady (nameAt i) := steady_reads _

theorem steady_unboundLocal (slot : Nat) : Steady (unboundLocal slot : Act α) :=
  (steady_reads _).bind fun _ => steady_raise _

theorem steady_loadLocal (slot : Nat) : Steady (loadLocal slot) := by
  refine (steady_reads _).bind fun v => ?_
  split
  · exact Keeps.pure _
  · exact steady_unboundLocal _
  · exact steady_internal _

theorem steady_deleteLocal (slot : Nat) : Steady (deleteLocal slot) := by
  refine (steady_reads _).bind fun v => ?_
  split
  · exact steady_modifyFrame fun _ => ⟨by rfl, by rfl⟩
  · exact steady_unboundLocal _
  · exact steady_internal _

theorem steady_storeLocal (slot : Nat) (v : Value) : Steady (storeLocal slot v) := by
  refine (steady_reads _).bind fun size => ?_
  exact Keeps.ite (fun _ => steady_modifyFrame fun _ => ⟨by rfl, by rfl⟩) fun _ => steady_internal _

theorem steady_cellAt (i : Nat) : Steady (cellAt i) := by
  refine (steady_reads _).bind fun v => ?_
  split
  · exact Keeps.pure _
  · exact steady_internal _

theorem steady_unboundCell (i : Nat) : Steady (unboundCell i : Act α) :=
  steady_unit.bind fun _ => Keeps.ite (fun _ => steady_raise _) fun _ => steady_raise _

theorem steady_cellContent (a : Addr) : Steady (cellContent a) := by
  refine steady_vm ((Vm.steady_obj a).bind fun o => ?_)
  split
  · exact Keeps.pure _
  · exact Vm.steady_internal _

theorem steady_setCell (a : Addr) (v : Option Value) : Steady (setCell a v) :=
  steady_vm (Vm.steady_modifyObj _ _)

theorem steady_globals : Steady globals := by
  refine (steady_reads _).bind fun a => steady_heap.bind fun h => ?_
  split
  · exact Keeps.pure _
  · exact steady_internal _

theorem steady_modifyGlobals (g : Globals → Globals) : Steady (modifyGlobals g) :=
  (steady_reads _).bind fun _ => steady_vm (Vm.steady_modifyObj _ _)

theorem steady_lookupGlobal (name : String) : Steady (lookupGlobal name) := by
  refine steady_globals.bind fun g => ?_
  split
  · exact Keeps.pure _
  · exact steady_readsMachine _

/-! ### Sites and counters -/

theorem steady_site : Steady site := (steady_reads _).bind fun _ => steady_readsMachine _

theorem steady_setSite (s : Site) : Steady (setSite s) :=
  (steady_reads _).bind fun _ => steady_modifyMachine fun m => m.steady_of_with m.heap m.stats _

theorem steady_count (g : Stats → Stats) : Steady (count g) :=
  steady_modifyMachine fun m => m.steady_of_with m.heap _ m.profiles

theorem steady_hit : Steady hit := steady_count _

theorem steady_missAt (s : Site) : Steady (missAt s) :=
  (steady_setSite _).bind fun _ => steady_count _

theorem steady_settle (s : Site) (c : SiteCache) : Steady (settle s c) :=
  (steady_setSite _).bind fun _ => steady_count _

theorem steady_specializing : Steady specializing := steady_readsMachine _

theorem steady_noteOperator (kind : SiteCache) (hits : SiteCache → Bool) :
    Steady (noteOperator kind hits) :=
  keeps_noteOperator (steady_readsMachine _) steady_site steady_setSite steady_count kind hits

theorem steady_updateLoop (header backEdge : Nat) (g : LoopInfo → LoopInfo × α) :
    Steady (updateLoop header backEdge g) :=
  (steady_reads _).bind fun _ => (steady_readsMachine _).bind fun _ =>
    (steady_modifyMachine fun m => m.steady_of_with m.heap m.stats _).bind fun _ => Keeps.pure _

theorem steady_leaveAt (pc : Nat) : Steady (leaveAt pc) :=
  (steady_jumpTo pc).bind fun _ => Keeps.pure _

theorem steady_deoptAt (pc : Nat) : Steady (deoptAt pc) :=
  (steady_jumpTo pc).bind fun _ => Keeps.pure _

end Act

end StackVm
