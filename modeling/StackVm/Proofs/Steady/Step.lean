import StackVm.Proofs.Steady.Activation
import StackVm.Proofs.Ops.Inline

/-! Instructions keep their activation steady.  Everything an instruction does to the machine
goes through the store, the profiles and the counters, except its call-outs, which run one
nesting level down through the kit under `Act.withContext`; so an instruction is steady as soon
as the kit is.  The same holds of the handler search, of compiled loops, and of the instruction
loop, which only strings these together. -/

namespace StackVm

open EStateM (Keeps)

namespace Act

variable {α : Type} {k : Kit}

/-! ### Names, attributes and calls -/

theorem steady_loadGlobal (index : Nat) : Steady (loadGlobal index) := by
  unfold loadGlobal
  refine (steady_nameAt _).bind fun name => (steady_reads _).bind fun ga => ?_
  refine steady_globals.bind fun g => steady_specializing.bind fun spec => ?_
  dsimp only
  repeat' with_reducible first
    | exact Keeps.pure _
    | exact steady_raise _
    | exact steady_settle _ _
    | exact steady_missAt _
    | exact steady_site
    | exact steady_hit
    | exact steady_lookupGlobal _
    | refine Keeps.ite (fun _ => ?_) fun _ => ?_
    | refine Keeps.bind ?_ fun _ => ?_
    | split

theorem steady_loadAttr (obj : Value) (index : Nat) : Steady (loadAttr obj index) := by
  unfold loadAttr
  refine (steady_nameAt _).bind fun name => ?_
  dsimp only
  repeat' with_reducible first
    | exact Keeps.pure _
    | exact steady_vm (Ops.steady_getAttr _ _)
    | exact steady_specializing
    | exact steady_heap
    | exact steady_site
    | exact steady_hit
    | exact steady_missAt _
    | exact steady_settle _ _
    | refine Keeps.ite (fun _ => ?_) fun _ => ?_
    | refine Keeps.bind ?_ fun _ => ?_
    | split

theorem steady_callTarget (callable : Value) (argc : Nat) : Steady (callTarget callable argc) := by
  unfold callTarget
  repeat' with_reducible first
    | exact Keeps.pure _
    | exact steady_specializing
    | exact steady_heap
    | exact steady_site
    | exact steady_hit
    | exact steady_missAt _
    | exact steady_settle _ _
    | refine Keeps.ite (fun _ => ?_) fun _ => ?_
    | refine Keeps.bind ?_ fun _ => ?_
    | split

theorem steady_spread (hk : k.Steady) (v : Value) : Steady (spread k v) := by
  refine steady_heap.bind fun h => ?_
  split
  · exact Keeps.pure _
  · exact Keeps.pure _
  · exact steady_withContext (hk.iterate v)

theorem steady_callFromStack (hk : k.Steady) (argc : Nat) : Steady (callFromStack k argc) := by
  refine (steady_popN _).bind fun args => steady_pop.bind fun callable => ?_
  refine (steady_callTarget _ _).bind fun direct => ?_
  refine (steady_withContext ?_).bind steady_push
  split
  · exact hk.run _ _
  · exact hk.call _ _

theorem steady_callVarargs (hk : k.Steady) : Steady (callVarargs k) :=
  steady_pop.bind fun _ => steady_pop.bind fun _ => (steady_spread hk _).bind fun _ =>
    (steady_withContext (hk.call _ _)).bind steady_push

theorem steady_callMethod (hk : k.Steady) (name : String) (argc : Nat) :
    Steady (callMethod k name argc) :=
  (steady_popN _).bind fun _ => steady_pop.bind fun _ =>
    (steady_vm (Ops.steady_getAttr _ _)).bind fun _ =>
      (steady_withContext (hk.call _ _)).bind steady_push

/-! ### Functions, operators and containers -/

theorem steady_closureCells (v : Value) : Steady (closureCells v) := by
  refine steady_heap.bind fun h => ?_
  split
  · refine Keeps.mapM_array (fun x => ?_) _
    split
    · exact Keeps.pure _
    · exact steady_internal _
  · exact steady_internal _

theorem steady_makeFunction (index flags : Nat) : Steady (makeFunction index flags) := by
  unfold makeFunction
  refine steady_unit.bind fun u => ?_
  dsimp only
  repeat' with_reducible first
    | exact Keeps.pure _
    | exact steady_internal _
    | exact steady_pop
    | exact steady_heap
    | exact steady_reads _
    | exact steady_closureCells _
    | exact steady_vm (Vm.steady_newFunction _ _ _ _)
    | exact steady_push _
    | refine Keeps.ite (fun _ => ?_) fun _ => ?_
    | refine Keeps.bind ?_ fun _ => ?_
    | split

theorem steady_binaryOp (op : BinaryOp) : Steady (binaryOp op) :=
  steady_pop.bind fun _ => steady_pop.bind fun _ => steady_heap.bind fun _ =>
    (steady_noteOperator _ _).bind fun _ =>
      (steady_vm (binaryAt_cases op (Ops.steady_binary _ _ _)
        (fun _ => (Vm.steady_ofExcept _).bind Vm.steady_num)
        (fun _ => (Vm.steady_ofExcept _).bind fun _ => Keeps.pure _) Vm.steady_str)).bind
        steady_push

theorem steady_compareOp (op : CompareOp) : Steady (compareOp op) :=
  steady_pop.bind fun _ => steady_pop.bind fun _ => steady_heap.bind fun _ =>
    (steady_noteOperator _ _).bind fun _ => (steady_ofExcept _).bind fun _ => steady_push _

theorem steady_buildDict (n : Nat) : Steady (buildDict n) := by
  refine (steady_popN _).bind fun items => ?_
  refine (Keeps.forIn_list (fun kv es => ?_) _ _).bind fun es => ?_
  · exact steady_heap.bind fun _ => (steady_ofExcept _).bind fun _ =>
      steady_heap.bind fun _ => Keeps.pure _
  · exact (steady_vm (Vm.steady_alloc _)).bind fun a => steady_push _

theorem steady_buildSet (n : Nat) : Steady (buildSet n) := by
  refine (steady_popN _).bind fun items => ?_
  refine (Keeps.forIn_array (fun v xs => ?_) _ _).bind fun xs => ?_
  · exact steady_heap.bind fun _ => (steady_ofExcept _).bind fun _ =>
      steady_heap.bind fun _ => Keeps.pure _
  · exact (steady_vm (Vm.steady_alloc _)).bind fun a => steady_push _

theorem steady_unpackSequence (hk : k.Steady) (n : Nat) : Steady (unpackSequence k n) := by
  refine steady_pop.bind fun v => (steady_spread hk v).bind fun items => ?_
  dsimp only
  refine Keeps.ite (fun _ => (steady_raise _).bind fun _ => ?_) fun _ => ?_ <;>
  · refine Keeps.ite (fun _ => (steady_raise _).bind fun _ => ?_) fun _ => ?_ <;>
    exact (Keeps.forIn_array (fun v _ => (steady_push v).bind fun _ => Keeps.pure _) _ _).bind
      fun _ => Keeps.pure _

/-! ### Raising and handling -/

theorem steady_raiseChained (exc : Addr) : Steady (raiseChained exc : Act α) :=
  (steady_reads _).bind fun _ => (steady_vm (Vm.steady_chainContext _ _)).bind fun _ =>
    Keeps.throw _

theorem steady_raiseFrom : Steady (raiseFrom : Act α) := by
  refine steady_pop.bind fun _ => steady_pop.bind fun _ => ?_
  refine (steady_vm (Vm.steady_excOfValue _)).bind fun exc => ?_
  dsimp only
  refine Keeps.ite (fun _ => (Keeps.pure _).bind fun _ => ?_)
    (fun _ => ((steady_vm (Vm.steady_excOfValue _)).map _).bind fun _ => ?_) <;>
  exact (steady_vm (Vm.steady_setCause _ _)).bind fun _ => steady_raiseChained _

theorem steady_reraise : Steady (reraise : Act α) := by
  refine (steady_reads _).bind fun hd => ?_
  split
  · exact Keeps.throw _
  · exact steady_raise _

theorem steady_checkExcMatch : Steady checkExcMatch := by
  refine steady_pop.bind fun _ => steady_peek.bind fun top => steady_heap.bind fun h => ?_
  split
  · exact (steady_ofExcept _).bind fun _ => steady_push _
  · exact steady_internal _

theorem steady_popExcept : Steady popExcept := by
  refine (steady_reads _).bind fun empty => ?_
  dsimp only
  refine Keeps.ite (fun _ => (steady_internal _).bind fun _ => ?_) fun _ => ?_ <;>
  exact steady_modifyFrame fun _ => ⟨by rfl, by rfl⟩

/-! ### Compiled loops -/

theorem steady_loopStep (c : CompiledLoop) (index : Nat) : Steady (loopStep c index) := by
  unfold loopStep
  dsimp only
  repeat' with_reducible first
    | exact Keeps.pure _
    | exact (steady_leaveAt _).map _
    | exact (steady_deoptAt _).map _
    | exact steady_reads _
    | exact steady_push _
    | exact steady_pop
    | exact steady_peek
    | exact steady_peekAt _
    | exact steady_popN _
    | exact steady_rotate _
    | exact steady_heap
    | exact steady_storeLocal _ _
    | exact steady_vm (Vm.steady_num _)
    | exact (steady_vm (Ops.steady_iterNext _ _)).map _
    | exact (steady_modifyFrame fun _ => ⟨by rfl, by rfl⟩).bind fun _ => Keeps.throw _
    | refine Keeps.tryCatch ?_ fun _ => ?_
    | refine Keeps.ite (fun _ => ?_) fun _ => ?_
    | refine Keeps.bind ?_ fun _ => ?_
    | split

theorem steady_runCompiled (c : CompiledLoop) : ∀ fuel index, Steady (runCompiled c fuel index)
  | 0, _ => Keeps.throw _
  | fuel + 1, index => by
    refine (steady_loopStep c index).bind fun r => ?_
    cases r with
    | next i => exact steady_runCompiled c fuel i
    | exit e => exact Keeps.pure _

theorem steady_backEdge (distance : Nat) : Steady (backEdge distance) := by
  unfold backEdge
  refine (steady_reads _).bind fun backEdgePc => ?_
  dsimp only
  repeat' with_reducible first
    | exact Keeps.pure _
    | exact steady_internal _
    | exact steady_jumpTo _
    | exact steady_reads _
    | exact steady_readsMachine _
    | exact steady_unit
    | exact steady_count _
    | exact steady_updateLoop _ _ _
    | exact steady_runCompiled _ _ _
    | exact steady_modifyMachine fun m => m.steady_of_with m.heap m.stats _
    | refine Keeps.ite (fun _ => ?_) fun _ => ?_
    | refine Keeps.bind ?_ fun _ => ?_
    | split

/-! ### Instructions and the instruction loop -/

theorem steady_exec (hk : k.Steady) (op : Opcode) : Steady (exec k op) := by
  unfold exec
  cases op
  all_goals
    dsimp only
    repeat' with_reducible first
      | exact Keeps.pure _
      | exact steady_pop
      | exact steady_push _
      | exact steady_nextWord
      | exact steady_nextByte
      | exact steady_nextSignedWord
      | exact steady_peek
      | exact steady_peekAt _
      | exact steady_popN _
      | exact steady_rotate _
      | exact steady_unit
      | exact steady_reads _
      | exact steady_heap
      | exact steady_nameAt _
      | exact steady_raise _
      | exact steady_ofExcept _
      | exact steady_jumpBy _
      | exact steady_loadLocal _
      | exact steady_storeLocal _ _
      | exact steady_deleteLocal _
      | exact steady_cellAt _
      | exact steady_cellContent _
      | exact steady_setCell _ _
      | exact steady_unboundCell _
      | exact steady_loadGlobal _
      | exact steady_globals
      | exact steady_modifyGlobals _
      | exact steady_binaryOp _
      | exact steady_compareOp _
      | exact steady_buildDict _
      | exact steady_buildSet _
      | exact steady_unpackSequence hk _
      | exact steady_loadAttr _ _
      | exact steady_backEdge _
      | exact steady_callFromStack hk _
      | exact steady_callVarargs hk
      | exact steady_callMethod hk _ _
      | exact steady_makeFunction _ _
      | exact steady_raiseChained _
      | exact steady_raiseFrom
      | exact steady_reraise
      | exact steady_checkExcMatch
      | exact steady_popExcept
      | exact steady_withContext (hk.next _)
      | exact steady_vm (Ops.steady_unary _ _)
      | exact steady_vm (Vm.steady_list _)
      | exact steady_vm (Vm.steady_tuple _)
      | exact steady_vm (Ops.steady_getItem _ _)
      | exact steady_vm (Ops.steady_setItem _ _ _)
      | exact steady_vm (Ops.steady_delItem _ _)
      | exact steady_vm (Ops.steady_setAttr _ _ _)
      | exact steady_vm (Ops.steady_delAttr _ _)
      | exact steady_vm (Ops.steady_getIter _)
      | exact steady_vm (Vm.steady_excOfValue _)
      | exact steady_vm (Vm.steady_importModule _)
      | exact steady_vm (Vm.steady_importFrom _ _)
      | refine Keeps.ite (fun _ => ?_) fun _ => ?_
      | refine Keeps.bind ?_ fun _ => ?_
      | split

theorem steady_step (hk : k.Steady) : Steady (step k) := by
  refine (steady_modifyFrame fun _ => ⟨by rfl, by rfl⟩).bind fun _ => steady_nextByte.bind fun b => ?_
  split
  · exact steady_exec hk _
  · exact steady_internal _

theorem steady_dispatch (exc : Addr) : Steady (dispatch exc) := by
  unfold dispatch
  refine (steady_reads _).bind fun r => ?_
  split
  · exact (steady_modifyFrame fun _ => ⟨by rfl, by rfl⟩).bind fun _ => Keeps.throw _
  · exact (steady_modifyFrame fun _ => ⟨by rfl, by rfl⟩).bind fun _ => (steady_push _).bind fun _ =>
      steady_modifyFrame fun _ => ⟨by rfl, by rfl⟩

/-- The handler search: the exception is chained and traced in the store, and a handler only
moves the frame within its own code. -/
theorem steady_unwind (err : Fault) : Steady (unwind err) := by
  unfold unwind
  split
  · refine (steady_vm (Vm.steady_exc _)).bind fun e => ?_
    dsimp only
    refine Keeps.ite (fun _ => (steady_reads _).bind fun _ =>
      (steady_vm (Vm.steady_chainContext _ _)).bind fun _ => ?_) fun _ => ?_ <;>
    · exact (steady_reads _).bind fun _ => (steady_vm (Vm.steady_modifyExc _ _)).bind fun _ =>
        steady_dispatch _
  · exact Keeps.throw _

theorem steady_execLoop (hk : k.Steady) : ∀ fuel, Steady (execLoop k fuel)
  | 0 => fun s => refl_of _ s
  | fuel + 1 => fun s => by
    have hstep := steady_step hk s
    simp only [execLoop]
    split
    · next t hst =>
      rw [hst] at hstep
      exact trans_of _ hstep (steady_execLoop hk fuel t)
    · next e t hst =>
      rw [hst] at hstep
      exact hstep
    · next err t hst =>
      rw [hst] at hstep
      have hunwind := steady_unwind err t
      split
      · next u hu =>
        rw [hu] at hunwind
        exact trans_of _ hstep (trans_of _ hunwind (steady_execLoop hk fuel u))
      · next e u hu =>
        rw [hu] at hunwind
        exact trans_of _ hstep hunwind

end Act

end StackVm
