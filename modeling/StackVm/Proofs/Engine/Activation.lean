import StackVm.Proofs.Engine.Primitive

/-! The primitives of an activation: the operand stack, the offsets, the local slots, the cells
and the frame's namespace.  None of them touches what frame soundness reads (the code and the
handled and inherited exceptions), so each keeps the activation sound.  Reading the namespace
finds the namespace object at the frame's address, a lookup resolves a name there and then among
the builtins, and a store moves the namespace to its next version. -/

namespace StackVm

open EngineState

namespace Frame

/-- Two frames that agree on what soundness reads. -/
structure Alike (f f' : Frame) : Prop where
  code : f'.code = f.code
  codeRef : f'.codeRef = f.codeRef
  handled : f'.handled = f.handled
  inherited : f'.inherited = f.inherited

theorem Sound.alike {h : Heap} {f f' : Frame} (hf : f.Sound h) (ha : f.Alike f') : f'.Sound h :=
  ⟨ha.code ▸ ha.codeRef ▸ hf.code, ha.handled ▸ hf.handled, ha.inherited ▸ hf.inherited⟩

theorem Sound.currentHandled {h : Heap} {f : Frame} (hf : f.Sound h) :
    ∀ a, f.currentHandled = some a → h.IsExc a := by
  intro a ha
  unfold Frame.currentHandled at ha
  split at ha
  case h_1 hd hback =>
    cases ha
    exact hf.handled hd (Array.mem_of_back? hback)
  case h_2 => exact hf.inherited a ha

end Frame

theorem Machine.Sound.withContext {m : Machine} (hs : m.Sound) {c : Option Addr}
    (hc : ∀ a, c = some a → m.heap.IsExc a) : { m with context := c }.Sound :=
  hs.of_evolves ⟨.refl _, rfl, rfl⟩ hs.heap hc rfl

namespace Act

variable {α β : Type} {P : Active → Prop}

theorem safe_reads (g : Frame → α) : Safe (reads g) := Triple.reads fun _ _ _ => trivial

theorem safe_readsMachine {g : Machine → α} (hinv : ∀ m, g m.erase = g m) :
    Safe (readsMachine g) :=
  Triple.readsMachine hinv fun _ _ _ => trivial

theorem safe_heap : Safe heap := safe_readsMachine fun _ => rfl

theorem safe_unit : Safe unit := safe_reads _

theorem safe_modifyFrame {g : Frame → Frame} (hg : ∀ f : Frame, f.Alike (g f)) :
    Safe (modifyFrame g) :=
  Triple.modifyFrame fun s hs _ => ⟨hs.frame.alike (hg s.frame), trivial⟩

theorem safe_vm {x : Vm α} (hx : Safe x) : Safe (vm x) :=
  (Triple.vm hx fun _ => True).mono (fun _ _ => ⟨trivial, trivial⟩) (fun _ _ _ => trivial)
    fun _ _ _ => trivial

theorem spec_stackFault (b : Bool) :
    Triple P (stackFault b) (fun e s => P s ∧ ∀ a, e ≠ .raise a) :=
  Triple.reads fun _ _ hp => ⟨hp, fun a h => by cases b <;> cases h⟩

theorem safe_stackFault_throw (b : Bool) (f : Unit → Act β) :
    Safe (stackFault b >>= fun e => (throw e >>= f)) :=
  (spec_stackFault b).bind fun _ =>
    Triple.throw_bind (fun _ _ _ => trivial) fun _ _ hp a h => absurd h (hp.2 a)

theorem safe_stackFault_fail (b : Bool) : Safe (stackFault b >>= fun e => (throw e : Act α)) :=
  (spec_stackFault b).bind fun _ =>
    Triple.throw (fun _ _ _ => trivial) fun _ _ hp a h => absurd h (hp.2 a)

theorem safe_internal (msg : String) : Safe (internal msg : Act α) :=
  Safe.throw fun _ h => by cases h

theorem safe_raise (r : Raise) : Safe (raise r : Act α) := safe_vm (Vm.safe_raise r)

theorem safe_ofExcept (x : Except Raise α) : Safe (ofExcept x) := safe_vm (Vm.safe_ofExcept x)

theorem safe_withContext {x : Vm α} (hx : Safe x) : Safe (withContext x) := by
  rintro ⟨m, f⟩ hs -
  have hs₁ : ({ m with context := f.currentHandled } : Machine).Sound :=
    hs.machine.withContext hs.frame.currentHandled
  have g := hx _ hs₁ trivial
  have back : ∀ m', m.Evolves m' → m'.Sound → (⟨{ m' with context := m.context }, f⟩ : Active).Sound :=
    fun m' he hs' => ⟨hs'.withContext fun a ha => he.heap.isExc (hs.machine.context a ha),
      hs.frame.evolves he.heap⟩
  cases hxm : x { m with context := f.currentHandled } with
  | ok v m' =>
    have hrun : withContext x ⟨m, f⟩ = .ok v ⟨{ m' with context := m.context }, f⟩ := by
      simp only [withContext, hxm]
    have he : m.Evolves m' :=
      let h := g.evolves_ok hxm
      ⟨h.heap, h.builtins, h.profiles⟩
    refine ⟨hrun ▸ back m' he (g.sound_ok hxm), hrun ▸ ⟨he.heap, he.builtins, he.profiles⟩,
      fun _ _ _ => trivial, fun e s' h => ?_, fun hco => ?_⟩
    · rw [hrun] at h
      cases h
    · have hx' : x { m.erase with context := f.currentHandled } = .ok v m'.erase := by
        have h := g.erase hco
        rw [hxm] at h
        exact h
      rw [hrun]
      change withContext x ⟨m.erase, f⟩ = _
      simp only [withContext, hx']
      rfl
  | error e m' =>
    have hrun : withContext x ⟨m, f⟩ = .error e ⟨{ m' with context := m.context }, f⟩ := by
      simp only [withContext, hxm]
    have he : m.Evolves m' :=
      let h := g.evolves_error hxm
      ⟨h.heap, h.builtins, h.profiles⟩
    refine ⟨hrun ▸ back m' he (g.sound_error hxm), hrun ▸ ⟨he.heap, he.builtins, he.profiles⟩,
      fun _ _ h => ?_, fun e' s' h => ?_, fun hco => ?_⟩
    · rw [hrun] at h
      cases h
    · rw [hrun] at h
      cases h
      exact ⟨trivial, (g.error e m' hxm).2⟩
    · have hx' : x { m.erase with context := f.currentHandled } = .error e m'.erase := by
        have h := g.erase hco
        rw [hxm] at h
        exact h
      rw [hrun]
      change withContext x ⟨m.erase, f⟩ = _
      simp only [withContext, hx']
      rfl

theorem safe_count {g : Stats → Stats}
    (hg : ∀ st : Stats, g { st with cacheHits := 0, cacheMisses := 0, resolvedSites := 0 } =
      { g st with cacheHits := 0, cacheMisses := 0, resolvedSites := 0 }) : Safe (count g) :=
  Triple.modifyMachine (fun s hs _ => ⟨hs.machine.of_evolves ⟨.refl _, rfl, rfl⟩ hs.machine.heap
    hs.machine.context rfl, ⟨.refl _, rfl, rfl⟩, trivial⟩) fun m => by
      simp only [Machine.erase, hg]

/-! ### The operand stack -/

theorem safe_push (v : Value) : Safe (push v) := by
  unfold push
  refine (safe_reads _).bind fun full => Safe.ite (fun _ => safe_stackFault_throw true _) fun _ => ?_
  exact safe_modifyFrame fun _ => ⟨rfl, rfl, rfl, rfl⟩

theorem safe_peek : Safe peek := by
  unfold peek
  refine (safe_reads _).bind fun top => ?_
  split
  · exact Safe.pure _
  · exact safe_stackFault_fail false

theorem safe_peekAt (depth : Nat) : Safe (peekAt depth) := by
  unfold peekAt
  refine (safe_reads _).bind fun top => ?_
  split
  · exact Safe.pure _
  · exact safe_stackFault_fail false

theorem safe_pop : Safe pop :=
  safe_peek.bind fun _ =>
    Safe.bind (safe_modifyFrame fun _ => ⟨rfl, rfl, rfl, rfl⟩) fun _ => Safe.pure _

theorem safe_popN (n : Nat) : Safe (popN n) := by
  unfold popN
  have tail : ∀ size, Safe (do
      let items ← reads fun f => f.stack.extract (size - n) size
      modifyFrame fun f => { f with stack := f.stack.shrink (size - n) }
      pure items) := fun size =>
    (safe_reads _).bind fun _ =>
      Safe.bind (safe_modifyFrame fun _ => ⟨rfl, rfl, rfl, rfl⟩) fun _ => Safe.pure _
  exact (safe_reads _).bind fun size =>
    Safe.ite (fun _ => safe_stackFault_throw false _) fun _ => tail size

theorem safe_rotate (n : Nat) : Safe (rotate n) := by
  unfold rotate
  have tail : Safe (do
      let top ← pop
      let rest ← popN (n - 1)
      modifyFrame fun f => { f with stack := (f.stack.push top) ++ rest }) :=
    safe_pop.bind fun _ => (safe_popN _).bind fun _ =>
      safe_modifyFrame fun _ => ⟨rfl, rfl, rfl, rfl⟩
  exact (safe_reads _).bind fun size =>
    Safe.ite (fun _ => safe_stackFault_throw false _) fun _ => tail

/-! ### Offsets and local slots -/

theorem safe_nextByte : Safe nextByte :=
  (safe_reads _).bind fun _ =>
    Safe.bind (safe_modifyFrame fun _ => ⟨rfl, rfl, rfl, rfl⟩) fun _ => Safe.pure _

theorem safe_nextWord : Safe nextWord :=
  (safe_reads _).bind fun _ =>
    Safe.bind (safe_modifyFrame fun _ => ⟨rfl, rfl, rfl, rfl⟩) fun _ => Safe.pure _

theorem safe_nextSignedWord : Safe nextSignedWord :=
  (safe_reads _).bind fun _ =>
    Safe.bind (safe_modifyFrame fun _ => ⟨rfl, rfl, rfl, rfl⟩) fun _ => Safe.pure _

theorem safe_jumpBy (d : Int) : Safe (jumpBy d) := safe_modifyFrame fun _ => ⟨rfl, rfl, rfl, rfl⟩

theorem safe_jumpTo (pc : Nat) : Safe (jumpTo pc) := safe_modifyFrame fun _ => ⟨rfl, rfl, rfl, rfl⟩

theorem safe_nameAt (i : Nat) : Safe (nameAt i) := safe_reads _

theorem safe_storeLocal (slot : Nat) (v : Value) : Safe (storeLocal slot v) := by
  unfold storeLocal
  exact (safe_reads _).bind fun _ => Safe.ite
    (fun _ => safe_modifyFrame fun _ => ⟨rfl, rfl, rfl, rfl⟩) fun _ => safe_internal _

theorem safe_unboundLocal (slot : Nat) : Safe (unboundLocal slot : Act α) :=
  (safe_reads _).bind fun _ => safe_raise _

theorem safe_loadLocal (slot : Nat) : Safe (loadLocal slot) := by
  unfold loadLocal
  refine (safe_reads _).bind fun _ => ?_
  split
  · exact Safe.pure _
  · exact safe_unboundLocal slot
  · exact safe_internal _

theorem safe_deleteLocal (slot : Nat) : Safe (deleteLocal slot) := by
  unfold deleteLocal
  refine (safe_reads _).bind fun _ => ?_
  split
  · exact safe_modifyFrame fun _ => ⟨rfl, rfl, rfl, rfl⟩
  · exact safe_unboundLocal slot
  · exact safe_internal _

/-! ### Cells -/

theorem safe_cellAt (i : Nat) : Safe (cellAt i) := by
  unfold cellAt
  refine (safe_reads _).bind fun _ => ?_
  split
  · exact Safe.pure _
  · exact safe_internal _

theorem safe_unboundCell (i : Nat) : Safe (unboundCell i : Act α) := by
  unfold unboundCell
  exact safe_unit.bind fun _ => Safe.ite (fun _ => safe_raise _) fun _ => safe_raise _

theorem safe_cellContent (a : Addr) : Safe (cellContent a) := by
  unfold cellContent
  refine safe_vm ((Vm.spec_obj a).bind fun o => ?_)
  split
  · exact Triple.pure fun _ _ _ => trivial
  · exact Vm.spec_internal _ fun _ _ _ => trivial

theorem safe_setCell (a : Addr) (v : Option Value) : Safe (setCell a v) :=
  safe_vm (Vm.safe_modifyObj_plain a (Obj.plain_mapCell _))

/-! ### The namespace -/

theorem spec_globals :
    Triple P globals (fun g s => P s ∧ s.machine.heap.get? s.frame.globals = some (.globals g))
      (fun _ s => P s) := by
  unfold globals
  refine Triple.bind (Triple.reads (Q := fun a s => P s ∧ a = s.frame.globals)
    fun s _ hp => ⟨hp, rfl⟩) fun a => ?_
  refine Triple.bind (Triple.readsMachine (Q := fun h s => (P s ∧ a = s.frame.globals) ∧
    h = s.machine.heap) (fun _ => rfl) fun s _ hp => ⟨hp, rfl⟩) fun h => ?_
  split
  case h_1 g hg => exact Triple.pure fun s _ hp => ⟨hp.1.1, hp.1.2 ▸ hp.2 ▸ hg⟩
  case h_2 => exact Triple.throw (fun _ _ hp => hp.1.1) fun _ _ _ _ h => by cases h

theorem safe_globals : Safe globals :=
  spec_globals.mono (fun _ h => h) (fun _ _ _ => trivial) fun _ _ _ => trivial

theorem spec_lookupGlobal (name : String) :
    Triple P (lookupGlobal name) (fun r s => P s ∧ ∃ g, s.machine.heap.get? s.frame.globals =
      some (.globals g) ∧ r = g.resolve s.machine.builtins name) (fun _ s => P s) := by
  unfold lookupGlobal
  refine spec_globals.bind fun g => ?_
  split
  case h_1 v hv =>
    exact Triple.pure fun s _ hp => ⟨hp.1, g, hp.2, by simp only [Globals.resolve, hv]⟩
  case h_2 hv =>
    exact Triple.readsMachine (fun _ => rfl) fun s _ hp =>
      ⟨hp.1, g, hp.2, by simp only [Globals.resolve, hv]⟩

theorem safe_lookupGlobal (name : String) : Safe (lookupGlobal name) :=
  (spec_lookupGlobal name).mono (fun _ h => h) (fun _ _ _ => trivial) fun _ _ _ => trivial

theorem safe_modifyGlobals {g : Globals → Globals} (hg : ∀ g₀ : Globals, g₀.Precedes (g g₀)) :
    Safe (modifyGlobals g) := by
  unfold modifyGlobals
  exact (safe_reads _).bind fun a => safe_vm (Vm.spec_modifyObj
    (fun _ _ _ o _ => .mapGlobals hg o) (fun _ hs _ => hs.modify_globals fun g₀ _ => hg g₀)
    fun _ _ _ => trivial)

end Act

end StackVm
