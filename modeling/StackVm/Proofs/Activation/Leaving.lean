import StackVm.Proofs.Steady.Machine

/-! Instructions enter no handler.  A frame enters a handler only in the handler search, which
runs after an instruction has failed; an instruction itself changes the frame's operand stack,
slots and offsets, and `PopExcept` leaves the innermost handler, but none adds one.  So every
instruction, and every run of a compiled loop, ends (finished or failed) with its frame on the
code it started with, handling a prefix of the exceptions it handled. -/

namespace StackVm

open EStateM (Keeps)

/-- A later state of an activation that has entered no handler: its frame runs the same code
and handles a prefix of the exceptions it handled, innermost last. -/
structure Active.OnlyLeaves (s s' : Active) : Prop where
  code : s'.frame.code = s.frame.code
  handled : s'.frame.handled.toList <+: s.frame.handled.toList

instance : Std.Refl Active.OnlyLeaves := ⟨fun _ => ⟨rfl, List.prefix_refl _⟩⟩

instance : IsTrans Active Active.OnlyLeaves :=
  ⟨fun _ _ _ h₁ h₂ => ⟨h₂.code.trans h₁.code, h₂.handled.trans h₁.handled⟩⟩

namespace Act

variable {α : Type} {k : Kit}

/-- An activation computation that enters no handler. -/
abbrev OnlyLeaves (x : Act α) : Prop := Keeps Active.OnlyLeaves x

/-! ### The primitives of an activation -/

theorem onlyLeaves_of_frame {x : Act α} (h : ∀ s, (x s).state.frame = s.frame) :
    OnlyLeaves x :=
  fun s => ⟨by rw [h], by rw [h]⟩

theorem onlyLeaves_vm (x : Vm α) : OnlyLeaves (vm x) := by
  refine onlyLeaves_of_frame fun ⟨m, f⟩ => ?_
  simp only [vm]
  split <;> rfl

theorem onlyLeaves_withContext (x : Vm α) : OnlyLeaves (withContext x) := by
  refine onlyLeaves_of_frame fun ⟨m, f⟩ => ?_
  simp only [withContext]
  split <;> rfl

theorem onlyLeaves_reads (g : Frame → α) : OnlyLeaves (reads g) := fun s => refl_of _ s

theorem onlyLeaves_readsMachine (g : Machine → α) : OnlyLeaves (readsMachine g) :=
  fun s => refl_of _ s

theorem onlyLeaves_modifyMachine (g : Machine → Machine) : OnlyLeaves (modifyMachine g) :=
  onlyLeaves_of_frame fun _ => rfl

theorem onlyLeaves_modifyFrame {g : Frame → Frame}
    (hg : ∀ f, (g f).code = f.code ∧ (g f).handled = f.handled) : OnlyLeaves (modifyFrame g) :=
  fun ⟨_, f⟩ => ⟨(hg f).1, by
    show (g f).handled.toList <+: f.handled.toList
    rw [(hg f).2]⟩

theorem onlyLeaves_heap : OnlyLeaves heap := onlyLeaves_readsMachine _

theorem onlyLeaves_unit : OnlyLeaves unit := onlyLeaves_reads _

theorem onlyLeaves_internal (msg : String) : OnlyLeaves (internal msg : Act α) := Keeps.throw _

theorem onlyLeaves_stackFault (overflow : Bool) : OnlyLeaves (stackFault overflow) :=
  onlyLeaves_reads _

theorem onlyLeaves_checkStack (c : Prop) [Decidable c] (b : Bool) {β : Type} (f : Unit → Act β)
    (hf : OnlyLeaves (f ())) :
    OnlyLeaves (if c then (do let e ← stackFault b; let r ← throw e; f r) else f ()) :=
  Keeps.ite (fun _ => (onlyLeaves_stackFault _).bind fun _ => Keeps.throw _) fun _ => hf

theorem onlyLeaves_push (v : Value) : OnlyLeaves (push v) := by
  refine (onlyLeaves_reads _).bind fun full => ?_
  exact onlyLeaves_checkStack _ _ _ (onlyLeaves_modifyFrame fun _ => ⟨by rfl, by rfl⟩)

theorem onlyLeaves_peek : OnlyLeaves peek := by
  refine (onlyLeaves_reads _).bind fun v => ?_
  split
  · exact Keeps.pure _
  · exact (onlyLeaves_stackFault _).bind fun _ => Keeps.throw _

theorem onlyLeaves_peekAt (depth : Nat) : OnlyLeaves (peekAt depth) := by
  refine (onlyLeaves_reads _).bind fun v => ?_
  split
  · exact Keeps.pure _
  · exact (onlyLeaves_stackFault _).bind fun _ => Keeps.throw _

theorem onlyLeaves_pop : OnlyLeaves pop :=
  onlyLeaves_peek.bind fun _ =>
    (onlyLeaves_modifyFrame fun _ => ⟨by rfl, by rfl⟩).bind fun _ => Keeps.pure _

theorem onlyLeaves_popN (n : Nat) : OnlyLeaves (popN n) := by
  refine (onlyLeaves_reads _).bind fun size => ?_
  refine onlyLeaves_checkStack _ _ _ ((onlyLeaves_reads _).bind fun _ => ?_)
  exact (onlyLeaves_modifyFrame fun _ => ⟨by rfl, by rfl⟩).bind fun _ => Keeps.pure _

theorem onlyLeaves_rotate (n : Nat) : OnlyLeaves (rotate n) := by
  refine (onlyLeaves_reads _).bind fun size => ?_
  refine onlyLeaves_checkStack _ _ _ (onlyLeaves_pop.bind fun _ => (onlyLeaves_popN _).bind fun _ => ?_)
  exact onlyLeaves_modifyFrame fun _ => ⟨by rfl, by rfl⟩

theorem onlyLeaves_raise (r : Raise) : OnlyLeaves (raise r : Act α) := onlyLeaves_vm _

theorem onlyLeaves_ofExcept (x : Except Raise α) : OnlyLeaves (ofExcept x) := onlyLeaves_vm _

/-! ### Operands, slots, cells and the namespace -/

theorem onlyLeaves_nextByte : OnlyLeaves nextByte :=
  (onlyLeaves_reads _).bind fun _ =>
    (onlyLeaves_modifyFrame fun _ => ⟨by rfl, by rfl⟩).bind fun _ => Keeps.pure _

theorem onlyLeaves_nextWord : OnlyLeaves nextWord :=
  (onlyLeaves_reads _).bind fun _ =>
    (onlyLeaves_modifyFrame fun _ => ⟨by rfl, by rfl⟩).bind fun _ => Keeps.pure _

theorem onlyLeaves_nextSignedWord : OnlyLeaves nextSignedWord :=
  (onlyLeaves_reads _).bind fun _ =>
    (onlyLeaves_modifyFrame fun _ => ⟨by rfl, by rfl⟩).bind fun _ => Keeps.pure _

theorem onlyLeaves_jumpTo (pc : Nat) : OnlyLeaves (jumpTo pc) :=
  onlyLeaves_modifyFrame fun _ => ⟨by rfl, by rfl⟩

theorem onlyLeaves_jumpBy (d : Int) : OnlyLeaves (jumpBy d) :=
  onlyLeaves_modifyFrame fun _ => ⟨by rfl, by rfl⟩

theorem onlyLeaves_nameAt (i : Nat) : OnlyLeaves (nameAt i) := onlyLeaves_reads _

theorem onlyLeaves_unboundLocal (slot : Nat) : OnlyLeaves (unboundLocal slot : Act α) :=
  (onlyLeaves_reads _).bind fun _ => onlyLeaves_vm _

theorem onlyLeaves_loadLocal (slot : Nat) : OnlyLeaves (loadLocal slot) := by
  refine (onlyLeaves_reads _).bind fun v => ?_
  split
  · exact Keeps.pure _
  · exact onlyLeaves_unboundLocal _
  · exact onlyLeaves_internal _

theorem onlyLeaves_deleteLocal (slot : Nat) : OnlyLeaves (deleteLocal slot) := by
  refine (onlyLeaves_reads _).bind fun v => ?_
  split
  · exact onlyLeaves_modifyFrame fun _ => ⟨by rfl, by rfl⟩
  · exact onlyLeaves_unboundLocal _
  · exact onlyLeaves_internal _

theorem onlyLeaves_storeLocal (slot : Nat) (v : Value) : OnlyLeaves (storeLocal slot v) :=
  (onlyLeaves_reads _).bind fun _ =>
    Keeps.ite (fun _ => onlyLeaves_modifyFrame fun _ => ⟨by rfl, by rfl⟩) fun _ => onlyLeaves_internal _

theorem onlyLeaves_cellAt (i : Nat) : OnlyLeaves (cellAt i) := by
  refine (onlyLeaves_reads _).bind fun v => ?_
  split
  · exact Keeps.pure _
  · exact onlyLeaves_internal _

theorem onlyLeaves_unboundCell (i : Nat) : OnlyLeaves (unboundCell i : Act α) :=
  onlyLeaves_unit.bind fun _ => Keeps.ite (fun _ => onlyLeaves_vm _) fun _ => onlyLeaves_vm _

theorem onlyLeaves_cellContent (a : Addr) : OnlyLeaves (cellContent a) := onlyLeaves_vm _

theorem onlyLeaves_setCell (a : Addr) (v : Option Value) : OnlyLeaves (setCell a v) :=
  onlyLeaves_vm _

theorem onlyLeaves_globals : OnlyLeaves globals := by
  refine (onlyLeaves_reads _).bind fun a => onlyLeaves_heap.bind fun h => ?_
  split
  · exact Keeps.pure _
  · exact onlyLeaves_internal _

theorem onlyLeaves_modifyGlobals (g : Globals → Globals) : OnlyLeaves (modifyGlobals g) :=
  (onlyLeaves_reads _).bind fun _ => onlyLeaves_vm _

theorem onlyLeaves_lookupGlobal (name : String) : OnlyLeaves (lookupGlobal name) := by
  refine onlyLeaves_globals.bind fun g => ?_
  split
  · exact Keeps.pure _
  · exact onlyLeaves_readsMachine _

/-! ### Sites, counters and loop records -/

theorem onlyLeaves_site : OnlyLeaves site :=
  (onlyLeaves_reads _).bind fun _ => onlyLeaves_readsMachine _

theorem onlyLeaves_setSite (s : Site) : OnlyLeaves (setSite s) :=
  (onlyLeaves_reads _).bind fun _ => onlyLeaves_modifyMachine _

theorem onlyLeaves_count (g : Stats → Stats) : OnlyLeaves (count g) := onlyLeaves_modifyMachine _

theorem onlyLeaves_hit : OnlyLeaves hit := onlyLeaves_count _

theorem onlyLeaves_specializing : OnlyLeaves specializing := onlyLeaves_readsMachine _

theorem onlyLeaves_missAt (s : Site) : OnlyLeaves (missAt s) :=
  (onlyLeaves_setSite _).bind fun _ => onlyLeaves_modifyMachine _

theorem onlyLeaves_settle (s : Site) (c : SiteCache) : OnlyLeaves (settle s c) :=
  (onlyLeaves_setSite _).bind fun _ => onlyLeaves_modifyMachine _

theorem onlyLeaves_noteOperator (kind : SiteCache) (hits : SiteCache → Bool) :
    OnlyLeaves (noteOperator kind hits) :=
  keeps_noteOperator (onlyLeaves_readsMachine _) onlyLeaves_site onlyLeaves_setSite
    onlyLeaves_count kind hits

theorem onlyLeaves_updateLoop (header backEdge : Nat) (g : LoopInfo → LoopInfo × α) :
    OnlyLeaves (updateLoop header backEdge g) :=
  (onlyLeaves_reads _).bind fun _ => (onlyLeaves_readsMachine _).bind fun _ =>
    (onlyLeaves_modifyMachine _).bind fun _ => Keeps.pure _

theorem onlyLeaves_leaveAt (pc : Nat) : OnlyLeaves (leaveAt pc) :=
  (onlyLeaves_jumpTo pc).bind fun _ => Keeps.pure _

theorem onlyLeaves_deoptAt (pc : Nat) : OnlyLeaves (deoptAt pc) :=
  (onlyLeaves_jumpTo pc).bind fun _ => Keeps.pure _

/-! ### Names, attributes and calls -/

theorem onlyLeaves_loadGlobal (index : Nat) : OnlyLeaves (loadGlobal index) := by
  unfold loadGlobal
  refine (onlyLeaves_nameAt _).bind fun name => (onlyLeaves_reads _).bind fun ga => ?_
  refine onlyLeaves_globals.bind fun g => onlyLeaves_specializing.bind fun spec => ?_
  dsimp only
  repeat' with_reducible first
    | exact Keeps.pure _
    | exact onlyLeaves_raise _
    | exact onlyLeaves_settle _ _
    | exact onlyLeaves_missAt _
    | exact onlyLeaves_site
    | exact onlyLeaves_hit
    | exact onlyLeaves_lookupGlobal _
    | refine Keeps.ite (fun _ => ?_) fun _ => ?_
    | refine Keeps.bind ?_ fun _ => ?_
    | split

theorem onlyLeaves_loadAttr (obj : Value) (index : Nat) : OnlyLeaves (loadAttr obj index) := by
  unfold loadAttr
  refine (onlyLeaves_nameAt _).bind fun name => ?_
  dsimp only
  repeat' with_reducible first
    | exact Keeps.pure _
    | exact onlyLeaves_vm _
    | exact onlyLeaves_specializing
    | exact onlyLeaves_heap
    | exact onlyLeaves_site
    | exact onlyLeaves_hit
    | exact onlyLeaves_missAt _
    | exact onlyLeaves_settle _ _
    | refine Keeps.ite (fun _ => ?_) fun _ => ?_
    | refine Keeps.bind ?_ fun _ => ?_
    | split

theorem onlyLeaves_callTarget (callable : Value) (argc : Nat) :
    OnlyLeaves (callTarget callable argc) := by
  unfold callTarget
  repeat' with_reducible first
    | exact Keeps.pure _
    | exact onlyLeaves_specializing
    | exact onlyLeaves_heap
    | exact onlyLeaves_site
    | exact onlyLeaves_hit
    | exact onlyLeaves_missAt _
    | exact onlyLeaves_settle _ _
    | refine Keeps.ite (fun _ => ?_) fun _ => ?_
    | refine Keeps.bind ?_ fun _ => ?_
    | split

theorem onlyLeaves_spread (v : Value) : OnlyLeaves (spread k v) := by
  refine onlyLeaves_heap.bind fun h => ?_
  split
  · exact Keeps.pure _
  · exact Keeps.pure _
  · exact onlyLeaves_withContext _

theorem onlyLeaves_callFromStack (argc : Nat) : OnlyLeaves (callFromStack k argc) :=
  (onlyLeaves_popN _).bind fun _ => onlyLeaves_pop.bind fun _ =>
    (onlyLeaves_callTarget _ _).bind fun _ => (onlyLeaves_withContext _).bind onlyLeaves_push

theorem onlyLeaves_callVarargs : OnlyLeaves (callVarargs k) :=
  onlyLeaves_pop.bind fun _ => onlyLeaves_pop.bind fun _ => onlyLeaves_spread _ |>.bind fun _ =>
    (onlyLeaves_withContext _).bind onlyLeaves_push

theorem onlyLeaves_callMethod (name : String) (argc : Nat) : OnlyLeaves (callMethod k name argc) :=
  (onlyLeaves_popN _).bind fun _ => onlyLeaves_pop.bind fun _ => (onlyLeaves_vm _).bind fun _ =>
    (onlyLeaves_withContext _).bind onlyLeaves_push

/-! ### Functions, operators and containers -/

theorem onlyLeaves_closureCells (v : Value) : OnlyLeaves (closureCells v) := by
  refine onlyLeaves_heap.bind fun h => ?_
  split
  · refine Keeps.mapM_array (fun x => ?_) _
    split
    · exact Keeps.pure _
    · exact onlyLeaves_internal _
  · exact onlyLeaves_internal _

theorem onlyLeaves_makeFunction (index flags : Nat) : OnlyLeaves (makeFunction index flags) := by
  unfold makeFunction
  refine onlyLeaves_unit.bind fun u => ?_
  dsimp only
  repeat' with_reducible first
    | exact Keeps.pure _
    | exact onlyLeaves_internal _
    | exact onlyLeaves_pop
    | exact onlyLeaves_heap
    | exact onlyLeaves_reads _
    | exact onlyLeaves_closureCells _
    | exact onlyLeaves_vm _
    | exact onlyLeaves_push _
    | refine Keeps.ite (fun _ => ?_) fun _ => ?_
    | refine Keeps.bind ?_ fun _ => ?_
    | split

theorem onlyLeaves_binaryOp (op : BinaryOp) : OnlyLeaves (binaryOp op) :=
  onlyLeaves_pop.bind fun _ => onlyLeaves_pop.bind fun _ => onlyLeaves_heap.bind fun _ =>
    (onlyLeaves_noteOperator _ _).bind fun _ => (onlyLeaves_vm _).bind onlyLeaves_push

theorem onlyLeaves_compareOp (op : CompareOp) : OnlyLeaves (compareOp op) :=
  onlyLeaves_pop.bind fun _ => onlyLeaves_pop.bind fun _ => onlyLeaves_heap.bind fun _ =>
    (onlyLeaves_noteOperator _ _).bind fun _ => (onlyLeaves_vm _).bind fun _ => onlyLeaves_push _

theorem onlyLeaves_buildDict (n : Nat) : OnlyLeaves (buildDict n) := by
  refine (onlyLeaves_popN _).bind fun items => ?_
  refine (Keeps.forIn_list (fun kv es => ?_) _ _).bind fun es => ?_
  · exact onlyLeaves_heap.bind fun _ => (onlyLeaves_vm _).bind fun _ =>
      onlyLeaves_heap.bind fun _ => Keeps.pure _
  · exact (onlyLeaves_vm _).bind fun a => onlyLeaves_push _

theorem onlyLeaves_buildSet (n : Nat) : OnlyLeaves (buildSet n) := by
  refine (onlyLeaves_popN _).bind fun items => ?_
  refine (Keeps.forIn_array (fun v xs => ?_) _ _).bind fun xs => ?_
  · exact onlyLeaves_heap.bind fun _ => (onlyLeaves_vm _).bind fun _ =>
      onlyLeaves_heap.bind fun _ => Keeps.pure _
  · exact (onlyLeaves_vm _).bind fun a => onlyLeaves_push _

theorem onlyLeaves_unpackSequence (n : Nat) : OnlyLeaves (unpackSequence k n) := by
  refine onlyLeaves_pop.bind fun v => (onlyLeaves_spread v).bind fun items => ?_
  dsimp only
  refine Keeps.ite (fun _ => (onlyLeaves_vm _).bind fun _ => ?_) fun _ => ?_ <;>
  · refine Keeps.ite (fun _ => (onlyLeaves_vm _).bind fun _ => ?_) fun _ => ?_ <;>
    exact (Keeps.forIn_array (fun v _ => (onlyLeaves_push v).bind fun _ => Keeps.pure _) _ _).bind
      fun _ => Keeps.pure _

/-! ### Raising and leaving handlers -/

theorem onlyLeaves_raiseChained (exc : Addr) : OnlyLeaves (raiseChained exc : Act α) :=
  (onlyLeaves_reads _).bind fun _ => (onlyLeaves_vm _).bind fun _ => Keeps.throw _

theorem onlyLeaves_raiseFrom : OnlyLeaves (raiseFrom : Act α) := by
  refine onlyLeaves_pop.bind fun _ => onlyLeaves_pop.bind fun _ => ?_
  refine (onlyLeaves_vm _).bind fun exc => ?_
  dsimp only
  refine Keeps.ite (fun _ => (Keeps.pure _).bind fun _ => ?_)
    (fun _ => ((onlyLeaves_vm _).map _).bind fun _ => ?_) <;>
  exact (onlyLeaves_vm _).bind fun _ => onlyLeaves_raiseChained _

theorem onlyLeaves_reraise : OnlyLeaves (reraise : Act α) := by
  refine (onlyLeaves_reads _).bind fun hd => ?_
  split
  · exact Keeps.throw _
  · exact onlyLeaves_vm _

theorem onlyLeaves_checkExcMatch : OnlyLeaves checkExcMatch := by
  refine onlyLeaves_pop.bind fun _ => onlyLeaves_peek.bind fun top => onlyLeaves_heap.bind fun h => ?_
  split
  · exact (onlyLeaves_vm _).bind fun _ => onlyLeaves_push _
  · exact onlyLeaves_internal _

theorem onlyLeaves_popExcept : OnlyLeaves popExcept := by
  refine (onlyLeaves_reads _).bind fun empty => ?_
  dsimp only
  refine Keeps.ite (fun _ => (onlyLeaves_internal _).bind fun _ => ?_) fun _ => ?_ <;>
  · rintro ⟨m, f⟩
    refine ⟨rfl, ?_⟩
    show f.handled.pop.toList <+: f.handled.toList
    rw [Array.toList_pop]
    exact List.dropLast_prefix _

/-! ### Compiled loops -/

theorem onlyLeaves_loopStep (c : CompiledLoop) (index : Nat) : OnlyLeaves (loopStep c index) := by
  unfold loopStep
  dsimp only
  repeat' with_reducible first
    | exact Keeps.pure _
    | exact (onlyLeaves_leaveAt _).map _
    | exact (onlyLeaves_deoptAt _).map _
    | exact onlyLeaves_reads _
    | exact onlyLeaves_push _
    | exact onlyLeaves_pop
    | exact onlyLeaves_peek
    | exact onlyLeaves_peekAt _
    | exact onlyLeaves_popN _
    | exact onlyLeaves_rotate _
    | exact onlyLeaves_heap
    | exact onlyLeaves_storeLocal _ _
    | exact onlyLeaves_vm _
    | exact (onlyLeaves_vm _).map _
    | exact (onlyLeaves_modifyFrame fun _ => ⟨by rfl, by rfl⟩).bind fun _ => Keeps.throw _
    | refine Keeps.tryCatch ?_ fun _ => ?_
    | refine Keeps.ite (fun _ => ?_) fun _ => ?_
    | refine Keeps.bind ?_ fun _ => ?_
    | split

theorem onlyLeaves_runCompiled (c : CompiledLoop) :
    ∀ fuel index, OnlyLeaves (runCompiled c fuel index)
  | 0, _ => Keeps.throw _
  | fuel + 1, index => by
    refine (onlyLeaves_loopStep c index).bind fun r => ?_
    cases r with
    | next i => exact onlyLeaves_runCompiled c fuel i
    | exit e => exact Keeps.pure _

theorem onlyLeaves_backEdge (distance : Nat) : OnlyLeaves (backEdge distance) := by
  unfold backEdge
  refine (onlyLeaves_reads _).bind fun backEdgePc => ?_
  dsimp only
  repeat' with_reducible first
    | exact Keeps.pure _
    | exact onlyLeaves_internal _
    | exact onlyLeaves_jumpTo _
    | exact onlyLeaves_reads _
    | exact onlyLeaves_readsMachine _
    | exact onlyLeaves_unit
    | exact onlyLeaves_count _
    | exact onlyLeaves_modifyMachine _
    | exact onlyLeaves_updateLoop _ _ _
    | exact onlyLeaves_runCompiled _ _ _
    | refine Keeps.ite (fun _ => ?_) fun _ => ?_
    | refine Keeps.bind ?_ fun _ => ?_
    | split

/-! ### Instructions -/

theorem onlyLeaves_exec (op : Opcode) : OnlyLeaves (exec k op) := by
  unfold exec
  cases op
  all_goals
    dsimp only
    repeat' with_reducible first
      | exact Keeps.pure _
      | exact onlyLeaves_pop
      | exact onlyLeaves_push _
      | exact onlyLeaves_nextWord
      | exact onlyLeaves_nextByte
      | exact onlyLeaves_nextSignedWord
      | exact onlyLeaves_peek
      | exact onlyLeaves_peekAt _
      | exact onlyLeaves_popN _
      | exact onlyLeaves_rotate _
      | exact onlyLeaves_unit
      | exact onlyLeaves_reads _
      | exact onlyLeaves_heap
      | exact onlyLeaves_nameAt _
      | exact onlyLeaves_raise _
      | exact onlyLeaves_ofExcept _
      | exact onlyLeaves_vm _
      | exact onlyLeaves_withContext _
      | exact onlyLeaves_jumpBy _
      | exact onlyLeaves_loadLocal _
      | exact onlyLeaves_storeLocal _ _
      | exact onlyLeaves_deleteLocal _
      | exact onlyLeaves_cellAt _
      | exact onlyLeaves_cellContent _
      | exact onlyLeaves_setCell _ _
      | exact onlyLeaves_unboundCell _
      | exact onlyLeaves_loadGlobal _
      | exact onlyLeaves_globals
      | exact onlyLeaves_modifyGlobals _
      | exact onlyLeaves_binaryOp _
      | exact onlyLeaves_compareOp _
      | exact onlyLeaves_buildDict _
      | exact onlyLeaves_buildSet _
      | exact onlyLeaves_unpackSequence _
      | exact onlyLeaves_loadAttr _ _
      | exact onlyLeaves_backEdge _
      | exact onlyLeaves_callFromStack _
      | exact onlyLeaves_callVarargs
      | exact onlyLeaves_callMethod _ _
      | exact onlyLeaves_makeFunction _ _
      | exact onlyLeaves_raiseChained _
      | exact onlyLeaves_raiseFrom
      | exact onlyLeaves_reraise
      | exact onlyLeaves_checkExcMatch
      | exact onlyLeaves_popExcept
      | refine Keeps.ite (fun _ => ?_) fun _ => ?_
      | refine Keeps.bind ?_ fun _ => ?_
      | split

theorem onlyLeaves_step : OnlyLeaves (step k) := by
  refine (onlyLeaves_modifyFrame fun _ => ⟨by rfl, by rfl⟩).bind fun _ => ?_
  refine onlyLeaves_nextByte.bind fun b => ?_
  split
  · exact onlyLeaves_exec _
  · exact onlyLeaves_internal _

end Act

end StackVm
