import StackVm.Proofs.Engine.Handlers
import StackVm.Proofs.Engine.Caches
import StackVm.Proofs.Engine.Loops
import StackVm.Proofs.Ops.Inline

/-! Every instruction keeps the invariants when the kit's operations do.  Most instructions are
sequences of the primitives shown safe before.  Three kinds read their sites, whose guesses are
about the instruction at the frame's `instrPc`: global and attribute reads and calls from the
stack.  They are safe on a frame that has just decoded its instruction (`Act.Decoded`), so that
the operands they read are the operands of that instruction.  Deleting a global moves the
namespace to the state after the one it read. -/

namespace StackVm

open EngineState

theorem Globals.precedes_remove (g : Globals) (n : String) : g.Precedes (g.remove n).1 := by
  unfold Globals.remove
  split
  · exact Globals.precedes_of_version rfl
  · exact .refl g

namespace Vm

variable {α : Type}

theorem safe_drain {next : Value → Vm (Option Value)} (hn : ∀ v, Safe (next v)) (it : Value) :
    ∀ fuel acc, Safe (drain next it fuel acc)
  | 0, _ => Safe.throw fun _ h => by cases h
  | fuel + 1, acc => (hn it).bind fun r => by
    cases r with
    | some v => exact safe_drain hn it fuel _
    | none => exact Safe.pure _

theorem safe_iterateWith {next : Value → Vm (Option Value)} (hn : ∀ v, Safe (next v))
    (v : Value) : Safe (iterateWith next v) :=
  (Ops.safe_getIter v).bind fun it => safe_drain hn it _ _

theorem safe_importModule (name : String) : Safe (importModule name) := by
  unfold importModule
  refine safe_get_bind (fun m => ?_) fun _ => rfl
  split
  · exact Safe.pure _
  · exact safe_raiseMsg _ _

theorem spec_rethrow (e : Fault) :
    Triple (fun m => Raised e m) (throw e : Vm α) (fun _ _ => True) :=
  Triple.throw (fun _ _ _ => trivial) fun _ _ h => h

theorem safe_importFrom (module : Value) (name : String) : Safe (importFrom module name) := by
  unfold importFrom
  refine Triple.tryCatch (Ops.safe_getAttr module name) fun err => ?_
  refine Triple.mono (P := fun m => Raised err m) ?_ (fun _ h => h.2) (fun _ _ h => h)
    fun _ _ h => h
  split
  · next a =>
    refine ((safe_exc a).keep (I := fun m => Raised (.raise a) m)
      (fun _ _ _ he h b hb => he.heap.isExc (h b hb))).bind fun e => ?_
    refine Triple.ite (fun _ => ?_) fun _ => spec_rethrow _
    exact Triple.get_bind (fun _ => (safe_raiseMsg _ _).mono (fun _ _ => trivial)
      (fun _ _ h => h) fun _ _ h => h) fun _ => rfl
  · exact spec_rethrow _

end Vm

namespace Act

variable {α : Type} {k : Kit}

/-! ### Operands of the decoded instruction -/

/-- The frame has decoded the opcode `op` at its `instrPc` and stands at its first operand. -/
def Decoded (op : Opcode) (s : Active) : Prop :=
  s.frame.pc = s.frame.instrPc + 1 ∧ Opcode.ofByte? (s.frame.unit.byteAt s.frame.instrPc) = some op

/-- The byte read at the first operand is the instruction's first operand byte; a fact `R` about
the instruction's unit and offset survives the read. -/
theorem spec_nextByte_operand (R : CodeUnit → Nat → Prop) :
    Triple (fun s => s.frame.pc = s.frame.instrPc + 1 ∧ R s.frame.unit s.frame.instrPc) nextByte
      (fun b s => b = s.frame.unit.byteAt (s.frame.instrPc + 1) ∧ R s.frame.unit s.frame.instrPc) := by
  refine (Triple.reads (Q := fun b s => b = s.frame.unit.byteAt (s.frame.instrPc + 1) ∧
    R s.frame.unit s.frame.instrPc) fun s _ hp => ⟨by rw [hp.1], hp.2⟩).bind fun b => ?_
  exact Triple.bind (Triple.modifyFrame fun s hs hp => ⟨hs.frame.alike ⟨rfl, rfl, rfl, rfl⟩, hp⟩)
    fun _ => Triple.pure fun _ _ hp => hp

theorem spec_nextWord_operand :
    Triple (fun s => s.frame.pc = s.frame.instrPc + 1) nextWord
      (fun w s => w = s.frame.unit.u16At (s.frame.instrPc + 1)) := by
  refine (Triple.reads (Q := fun w s => w = s.frame.unit.u16At (s.frame.instrPc + 1))
    fun s _ hp => by rw [hp]).bind fun w => ?_
  exact Triple.bind (Triple.modifyFrame fun s hs hp => ⟨hs.frame.alike ⟨rfl, rfl, rfl, rfl⟩, hp⟩)
    fun _ => Triple.pure fun _ _ hp => hp

theorem spec_nextByte_opcode :
    Triple (fun s => s.frame.pc = s.frame.instrPc) nextByte
      (fun b s => b = s.frame.unit.byteAt s.frame.instrPc ∧ s.frame.pc = s.frame.instrPc + 1) := by
  refine (Triple.reads (Q := fun b s => b = s.frame.unit.byteAt s.frame.instrPc ∧
    s.frame.pc = s.frame.instrPc) fun s _ hp => ⟨by rw [hp], hp⟩).bind fun b => ?_
  exact Triple.bind (Triple.modifyFrame (Q := fun _ s => b = s.frame.unit.byteAt s.frame.instrPc ∧
    s.frame.pc = s.frame.instrPc + 1) fun s hs hp =>
      ⟨hs.frame.alike ⟨rfl, rfl, rfl, rfl⟩, hp.1, by simp only [hp.2]⟩) fun _ =>
    Triple.pure fun _ _ hp => hp

theorem argcAt_of_byte {u : CodeUnit} {pc : Nat} {op : Opcode}
    (hop : Opcode.ofByte? (u.byteAt pc) = some op) (hshort : ∀ n, op ≠ .callArgs n) :
    u.argcAt pc = u.byteAt (pc + 1) := by
  unfold CodeUnit.argcAt
  rw [hop]
  split
  · next n h =>
    cases h
    exact absurd rfl (hshort n)
  · rfl

/-! ### Instructions that call, build and import -/

theorem safe_raise_bind {β : Type} (r : Raise) (f : α → Act β) : Safe (raise r >>= f) :=
  Triple.bind ((Triple.vm (Vm.spec_raise (P := fun _ => True) (Q := fun _ _ => False)
    (E := fun _ _ => True) r fun _ _ _ => trivial) fun _ => True).mono (fun _ _ => ⟨trivial, trivial⟩) (fun _ _ h => h.1) fun _ _ _ => trivial)
    fun _ => Triple.of_false

theorem spec_setGlobals (g : Globals) :
    Triple (fun s => ∃ g₀, s.machine.heap.get? s.frame.globals = some (.globals g₀) ∧
      g₀.Precedes g) (modifyGlobals fun _ => g) (fun _ _ => True) := by
  unfold modifyGlobals
  refine (Triple.reads (Q := fun a s => ∃ g₀, s.machine.heap.get? a = some (.globals g₀) ∧
    g₀.Precedes g) fun _ _ hp => hp).bind fun a => ?_
  have hmod := Vm.spec_modifyObj (a := a) (F := Obj.mapGlobals fun _ => g)
    (P := fun m => ∃ g₀, m.heap.get? a = some (.globals g₀) ∧ g₀.Precedes g)
    (Q := fun _ _ => True) (E := fun _ _ => True)
    (fun _ _ hp o ho => by
      obtain ⟨g₀, hg, hpre⟩ := hp
      rw [hg] at ho
      cases ho
      exact .of_globals hpre)
    (fun _ hs hp => by
      obtain ⟨g₀, hg, hpre⟩ := hp
      exact hs.modify_globals fun g' hg' => by
        rw [hg] at hg'
        cases hg'
        exact hpre)
    fun _ _ _ => trivial
  exact (Triple.vm hmod fun _ => True).mono (fun _ hp => ⟨hp, trivial⟩) (fun _ _ _ => trivial)
    fun _ _ _ => trivial

/-- `del name` of a global: a name that is not bound raises `NameError`, and a bound one moves
the namespace to its next version. -/
theorem safe_removeGlobal (name : String) (next : Act α) (hnext : Safe next) :
    Safe (do
      let (g, removed) := (← globals).remove name
      if removed.isNone then raise (Raise.nameUndefined name)
      modifyGlobals fun _ => g
      next) := by
  refine (spec_globals (P := fun _ => True)).bind fun g₀ => ?_
  dsimp only
  refine Triple.ite (fun _ => ?_) fun _ => ?_
  · exact Triple.mono (safe_raise_bind _ _) (fun _ _ => trivial) (fun _ _ h => h) fun _ _ h => h
  · refine ((spec_setGlobals _).mono (fun _ hp => ⟨g₀, hp.2, g₀.precedes_remove name⟩)
      (fun _ _ h => h) fun _ _ h => h).bind fun _ => ?_
    exact hnext.mono (fun _ _ => trivial) (fun _ _ h => h) fun _ _ h => h

theorem safe_spread (hk : k.Sound) (v : Value) : Safe (spread k v) := by
  refine safe_heap.bind fun h => ?_
  split
  · exact Safe.pure _
  · exact Safe.pure _
  · exact safe_withContext (Vm.safe_iterateWith hk.next v)

theorem safe_callVarargs (hk : k.Sound) : Safe (callVarargs k) :=
  safe_pop.bind fun _ => safe_pop.bind fun _ => (safe_spread hk _).bind fun _ =>
    (safe_withContext (hk.call _ _)).bind safe_push

theorem safe_callMethod (hk : k.Sound) (name : String) (argc : Nat) :
    Safe (callMethod k name argc) :=
  (safe_popN _).bind fun _ => safe_pop.bind fun _ =>
    (safe_vm (Ops.safe_getAttr _ _)).bind fun _ => (safe_withContext (hk.call _ _)).bind safe_push

theorem safe_closureCells (v : Value) : Safe (closureCells v) := by
  refine safe_heap.bind fun h => ?_
  split
  · refine Safe.mapM_array (fun x => ?_) _
    split
    · exact Safe.pure _
    · exact safe_internal _
  · exact safe_internal _

theorem safe_makeFunction (index flags : Nat) : Safe (makeFunction index flags) := by
  unfold makeFunction
  refine safe_unit.bind fun u => ?_
  dsimp only
  repeat' with_reducible first
    | exact Safe.pure _
    | exact safe_internal _
    | exact safe_pop
    | exact safe_heap
    | exact safe_reads _
    | exact safe_closureCells _
    | exact safe_vm (Vm.safe_newFunction _ _ _ _)
    | exact safe_push _
    | refine Safe.ite (fun _ => ?_) fun _ => ?_
    | refine Safe.bind ?_ fun _ => ?_
    | split

/-- The instruction at the frame's `instrPc` is `op`. -/
def At (op : Opcode) (s : Active) : Prop :=
  Opcode.ofByte? (s.frame.unit.byteAt s.frame.instrPc) = some op

theorem spec_pop_at (op : Opcode) : Triple (At op) pop (fun _ => At op) :=
  spec_pop fun _ _ h => h

theorem vm_congr {x y : Vm α} {s : Active} (h : x s.machine = y s.machine) : vm x s = vm y s := by
  obtain ⟨m, f⟩ := s
  simp only [vm, h]

/-- A binary operator keeps the invariants with its site, and on an erased machine it is the
general operator: where its site hits, the inline form computes what the general operator
computes, the string guess being made at `+` only. -/
theorem spec_binaryOp (op : BinaryOp) :
    Triple (At (.binary op)) (binaryOp op) (fun _ _ => True) := by
  unfold binaryOp
  refine (spec_pop_at _).bind fun y => (spec_pop_at _).bind fun x => ?_
  have hplain : Safe (heap >>= fun h => vm (Ops.binary op x y) >>= push) :=
    safe_heap.bind fun _ => (safe_vm (Ops.safe_binary op x y)).bind safe_push
  refine Triple.of_shadows hplain (fun _ => rfl) fun s hs hop => ?_
  obtain ⟨hit, s₁, hrun, hu, hhit⟩ :=
    @quietly_noteOperator s _ (fun c => (inlineBinary s.machine.heap op c x y).isSome)
      fun _ _ => binaryKind_soundAt hop
  have hz : Safe (vm (binaryAt s.machine.heap op hit x y) >>= push) :=
    (safe_vm (binaryAt_cases op (Ops.safe_binary _ _ _)
      (fun _ => (Vm.safe_ofExcept _).bind Vm.safe_num)
      (fun _ => (Vm.safe_ofExcept _).bind fun _ => Safe.pure _) Vm.safe_str)).bind safe_push
  refine ⟨s₁, _, hu, hz, (heap_bind_run _ s).trans (EStateM.run_bind_of_ok hrun),
    fun hco => ⟨s₁, hu, ?_⟩⟩
  have hstr : hit = some .strStr → op = .add := fun h => (hhit _ h).2 hs hco op hop
  have hvm : vm (binaryAt s.machine.heap op hit x y) s₁ = vm (Ops.binary op x y) s₁ :=
    vm_congr (hu.heap ▸ binaryAt_run hstr)
  show (EStateM.bind _ push s₁).mapState _ = (EStateM.bind _ push s₁).mapState _
  simp only [EStateM.bind, hvm]

/-- A rich comparison keeps the invariants with its site, and on an erased machine it is the
general comparison: the inline forms compute what it computes. -/
theorem spec_compareOp (op : CompareOp) :
    Triple (At (.compareWith op)) (compareOp op) (fun _ _ => True) := by
  unfold compareOp
  refine (spec_pop_at _).bind fun y => (spec_pop_at _).bind fun x => ?_
  have hplain :
      Safe (heap >>= fun h => ofExcept (h.compareValues op x y) >>= fun r => push (.bool r)) :=
    safe_heap.bind fun _ => (safe_ofExcept _).bind fun _ => safe_push _
  refine Triple.of_shadows hplain (fun _ => rfl) fun s hs hop => ?_
  obtain ⟨hit, s₁, hrun, hu, -⟩ :=
    @quietly_noteOperator s _ (fun c => (inlineCompare s.machine.heap op c x y).isSome)
      fun _ _ => compareKind_soundAt hop
  refine Shadows.of_run hplain hu ?_
  rw [heap_bind_run, EStateM.run_bind_of_ok hrun, compareAt_eq, heap_bind_run, hu.heap]

theorem safe_buildDict (n : Nat) : Safe (buildDict n) := by
  refine (safe_popN _).bind fun items => ?_
  refine (Safe.forIn_list (fun kv es => ?_) _ _).bind fun es => ?_
  · exact safe_heap.bind fun _ => (safe_ofExcept _).bind fun _ =>
      safe_heap.bind fun _ => Safe.pure _
  · exact (safe_vm (Vm.safe_alloc (.dict es) trivial)).bind fun a => safe_push _

theorem safe_buildSet (n : Nat) : Safe (buildSet n) := by
  refine (safe_popN _).bind fun items => ?_
  refine (Safe.forIn_array (fun v xs => ?_) _ _).bind fun xs => ?_
  · exact safe_heap.bind fun _ => (safe_ofExcept _).bind fun _ =>
      safe_heap.bind fun _ => Safe.pure _
  · exact (safe_vm (Vm.safe_alloc (.set xs) trivial)).bind fun a => safe_push _

theorem safe_unpackSequence (hk : k.Sound) (n : Nat) : Safe (unpackSequence k n) := by
  refine safe_pop.bind fun v => (safe_spread hk v).bind fun items => ?_
  dsimp only
  refine Safe.ite (fun _ => (safe_raise _).bind fun _ => ?_) fun _ => ?_ <;>
  · refine Safe.ite (fun _ => (safe_raise _).bind fun _ => ?_) fun _ => ?_ <;>
    exact (Safe.forIn_array (fun v _ => (safe_push v).bind fun _ => Safe.pure _) _ _).bind
      fun _ => Safe.pure _

/-! ### Instructions -/

/-- Every instruction keeps the invariants when the kit's operations do, decoded where the frame
stands: the reads of globals and attributes and the calls from the stack consult the sites of
the offset they were decoded at. -/
theorem spec_exec (hk : k.Sound) (op : Opcode) :
    Triple (Decoded op) (exec k op) (fun _ _ => True) := by
  have word := spec_nextWord_operand.mono (fun s (h : Decoded op s) => h.1) (fun _ _ h => h)
    fun _ _ (h : True) => h
  unfold exec
  cases op
  case loadGlobal | loadName =>
    refine word.bind fun i => ((spec_loadGlobal i).mono (fun _ h => h.symm) (fun _ _ h => h)
      fun _ _ h => h).bind fun v => (safe_push v).bind fun _ => Safe.pure _
  case loadAttr =>
    refine word.bind fun i => ?_
    refine (spec_pop (I := fun s => i = s.frame.unit.u16At (s.frame.instrPc + 1))
      fun _ _ h => h).bind fun obj => ?_
    exact ((spec_loadAttr obj i).mono (fun _ h => h.symm) (fun _ _ h => h) fun _ _ h => h).bind
      fun v => (safe_push v).bind fun _ => Safe.pure _
  case callArgs n =>
    refine ((spec_callFromStack hk n.val).mono (fun s h => ?_) (fun _ _ h => h)
      fun _ _ h => h).bind fun _ => Safe.pure _
    unfold CodeUnit.argcAt
    rw [h.2]
  case binary o =>
    exact ((spec_binaryOp o).mono (fun _ h => h.2) (fun _ _ h => h) fun _ _ h => h).bind fun _ =>
      Safe.pure _
  case compareWith o =>
    exact ((spec_compareOp o).mono (fun _ h => h.2) (fun _ _ h => h) fun _ _ h => h).bind fun _ =>
      Safe.pure _
  case callFunction =>
    refine ((spec_nextByte_operand fun u pc => u.argcAt pc = u.byteAt (pc + 1)).mono
      (fun s h => ⟨h.1, argcAt_of_byte h.2 fun _ h => by cases h⟩) (fun _ _ h => h)
      fun _ _ h => h).bind fun argc => ?_
    exact ((spec_callFromStack hk argc).mono (fun _ h => h.1.trans h.2.symm) (fun _ _ h => h)
      fun _ _ h => h).bind fun _ => Safe.pure _
  all_goals
    refine Triple.mono (P := fun _ => True) ?_ (fun _ _ => trivial) (fun _ _ h => h)
      fun _ _ h => h
    dsimp only
    repeat' with_reducible first
      | exact Safe.pure _
      | exact safe_pop
      | exact safe_push _
      | exact safe_nextWord
      | exact safe_nextByte
      | exact safe_nextSignedWord
      | exact safe_peek
      | exact safe_peekAt _
      | exact safe_popN _
      | exact safe_rotate _
      | exact safe_unit
      | exact safe_reads _
      | exact safe_heap
      | exact safe_nameAt _
      | exact safe_raise _
      | exact safe_ofExcept _
      | exact safe_jumpBy _
      | exact safe_loadLocal _
      | exact safe_storeLocal _ _
      | exact safe_deleteLocal _
      | exact safe_cellAt _
      | exact safe_cellContent _
      | exact safe_setCell _ _
      | exact safe_unboundCell _
      | exact safe_removeGlobal _ _ (Safe.pure _)
      | exact safe_modifyGlobals fun g => Globals.precedes_of_version rfl
      | exact safe_buildDict _
      | exact safe_buildSet _
      | exact safe_unpackSequence hk _
      | exact safe_backEdge _
      | exact safe_callVarargs hk
      | exact safe_callMethod hk _ _
      | exact safe_makeFunction _ _
      | exact safe_raiseValue _
      | exact safe_raiseFrom
      | exact safe_reraise
      | exact safe_checkExcMatch
      | exact safe_popExcept
      | exact safe_withContext (hk.next _)
      | exact safe_vm (Ops.safe_unary _ _)
      | exact safe_vm (Vm.safe_list _)
      | exact safe_vm (Vm.safe_tuple _)
      | exact safe_vm (Ops.safe_getItem _ _)
      | exact safe_vm (Ops.safe_setItem _ _ _)
      | exact safe_vm (Ops.safe_delItem _ _)
      | exact safe_vm (Ops.safe_setAttr _ _ _)
      | exact safe_vm (Ops.safe_delAttr _ _)
      | exact safe_vm (Ops.safe_getIter _)
      | exact safe_vm (Vm.safe_importModule _)
      | exact safe_vm (Vm.safe_importFrom _ _)
      | refine Safe.ite (fun _ => ?_) fun _ => ?_
      | refine Safe.bind ?_ fun _ => ?_
      | split

theorem safe_step (hk : k.Sound) : Safe (step k) := by
  unfold step
  refine Triple.bind (Triple.modifyFrame (Q := fun _ s => s.frame.pc = s.frame.instrPc)
    fun s hs _ => ⟨hs.frame.alike ⟨rfl, rfl, rfl, rfl⟩, rfl⟩) fun _ => ?_
  refine spec_nextByte_opcode.bind fun b => ?_
  split
  · next op hop =>
    exact (spec_exec hk op).mono (fun _ h => ⟨h.2, h.1 ▸ hop⟩) (fun _ _ h => h) fun _ _ h => h
  · exact (safe_internal _).mono (fun _ _ => trivial) (fun _ _ h => h) fun _ _ h => h

theorem execLoop_succ (k : Kit) (fuel : Nat) : execLoop k (fuel + 1) =
    ((tryCatch (step k) fun err => do unwind err; pure StepResult.next) >>= fun r =>
      match r with
      | .next => execLoop k fuel
      | .exit e => pure e) := by
  funext s
  show _ = EStateM.bind (EStateM.tryCatch _ _) _ s
  simp only [execLoop, EStateM.bind, EStateM.tryCatch]
  rcases step k s with ⟨_ | _, _⟩ | ⟨err, t⟩
  · rfl
  · rfl
  · have hr : EStateM.Backtrackable.restore t (EStateM.Backtrackable.save s) = t := rfl
    simp only [hr, bind, EStateM.bind]
    rcases unwind err t with ⟨⟨⟩, _⟩ | ⟨_, _⟩ <;> rfl

/-- The instruction loop keeps the invariants: each failure it hands to the handler search raises
an exception of the store. -/
theorem safe_execLoop (hk : k.Sound) : ∀ fuel, Safe (execLoop k fuel)
  | 0 => show Safe (throw Fault.exhausted) from Safe.throw fun _ h => by cases h
  | fuel + 1 => by
    rw [execLoop_succ]
    refine (Triple.tryCatch (safe_step hk) fun err => ?_).bind fun r => ?_
    · exact ((spec_unwind err).mono (fun _ h => h.2) (fun _ _ h => h) fun _ _ h => h).bind
        fun _ => Safe.pure _
    · cases r with
      | next => exact safe_execLoop hk fuel
      | exit e => exact Safe.pure _

end Act

end StackVm
