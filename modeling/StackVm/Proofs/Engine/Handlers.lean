import StackVm.Proofs.Engine.Exceptions
import StackVm.Proofs.Engine.Functions
import StackVm.Proofs.Activation.Dispatch

/-! Raising and handling keep the invariants.  Every exception an instruction raises is one of
the store: a raised value denotes an exception (`Vm.spec_excOfValue`), a reraise takes one the
frame handles, and the context and cause links go to exceptions the frame handles or the
instruction made.  A failure handed to the frame's handlers leaves handlers the frame had and
enters one whose exception is of the store, so frame soundness carries over. -/

namespace StackVm

open EngineState

variable {σ α : Type} [EngineState σ]

theorem Safe.keepExc {x : EStateM Fault σ α} (hx : Safe x) (a : Addr) :
    Triple (fun s => (machine s).heap.IsExc a) x (fun _ s => (machine s).heap.IsExc a) :=
  Safe.keep (fun _ _ _ he h => he.heap.isExc h) hx

namespace Act

theorem spec_chainHandled {β : Type} {Q : β → Active → Prop} {k : Unit → Act β} (exc : Addr)
    (hk : Triple (fun s => s.machine.heap.IsExc exc) (k ()) Q) :
    Triple (fun s => s.machine.heap.IsExc exc)
      (reads (·.currentHandled) >>= fun handled => vm (Vm.chainContext exc handled) >>= k) Q := by
  refine (Triple.reads (Q := fun handled s => (∀ a, handled = some a → s.machine.heap.IsExc a) ∧
    s.machine.heap.IsExc exc) fun s hs hp => ⟨hs.frame.currentHandled, hp⟩).bind fun handled => ?_
  have hc := Triple.stable (I := fun m : Machine => m.heap.IsExc exc)
    (fun _ _ _ he h => he.heap.isExc h) (Vm.spec_chainContext exc handled)
  exact ((Triple.vm hc fun _ => True).mono (fun _ hp => ⟨hp, trivial⟩) (fun _ _ h => h.1.2)
    fun _ _ _ => trivial).bind fun _ => hk

theorem spec_raiseChained {Q : α → Active → Prop} (exc : Addr) :
    Triple (fun s => s.machine.heap.IsExc exc) (raiseChained exc : Act α) Q :=
  spec_chainHandled exc (Triple.throw (fun _ _ _ => trivial) fun _ _ h a ha => by cases ha; exact h)

/-- The exception a raised value denotes, read inside an activation. -/
theorem spec_excOfValue (v : Value) :
    Triple (fun _ => True) (vm (Vm.excOfValue v)) (fun a s => s.machine.heap.IsExc a) :=
  (Triple.vm (Vm.spec_excOfValue v) fun _ => True).mono (fun _ _ => ⟨trivial, trivial⟩)
    (fun _ _ h => h.1) fun _ _ _ => trivial

theorem safe_raiseValue (v : Value) :
    Safe (vm (Vm.excOfValue v) >>= fun exc => (raiseChained exc : Act α)) :=
  (spec_excOfValue v).bind fun exc => spec_raiseChained exc

/-- Setting the cause of an exception, then raising it chained: both links lead to exceptions
of the store. -/
theorem spec_setCauseRaise {Q : α → Active → Prop} (exc : Addr) (cause : Option Addr) :
    Triple (fun s => (∀ c, cause = some c → s.machine.heap.IsExc c) ∧ s.machine.heap.IsExc exc)
      (vm (Vm.setCause exc cause) >>= fun _ => (raiseChained exc : Act α)) Q := by
  have hset := Triple.stable (I := fun m : Machine => m.heap.IsExc exc)
    (fun _ _ _ he h => he.heap.isExc h) (Vm.spec_setCause exc cause)
  exact ((Triple.vm hset fun _ => True).mono (fun _ hp => ⟨hp, trivial⟩) (fun _ _ h => h.1.2)
    fun _ _ _ => trivial).bind fun _ => spec_raiseChained exc

/-- `raise value from cause`: both denote exceptions of the store, so the cause link and the
context link lead to exceptions. -/
theorem safe_raiseFrom : Safe (raiseFrom : Act α) := by
  unfold raiseFrom
  refine safe_pop.bind fun causeValue => safe_pop.bind fun v => (spec_excOfValue v).bind
    fun exc => ?_
  dsimp only
  split
  · exact (Triple.pure fun _ _ hp => ⟨(fun _ h => by cases h), hp⟩).bind fun cause =>
      spec_setCauseRaise exc cause
  · refine ((Triple.stable (I := fun s : Active => s.machine.heap.IsExc exc)
      (fun _ _ _ he h => he.heap.isExc h) (spec_excOfValue _)).map.mono
      (fun _ hp => ⟨trivial, hp⟩) (fun _ _ h => h) fun _ _ _ => trivial).bind fun cause => ?_
    refine (spec_setCauseRaise exc cause).mono (fun _ h => ?_) (fun _ _ h => h) fun _ _ h => h
    obtain ⟨c, rfl, hc, hexc⟩ := h
    exact ⟨fun c' h => by cases h; exact hc, hexc⟩

theorem safe_reraise : Safe (reraise : Act α) := by
  unfold reraise
  refine (Triple.reads (Q := fun hd s => ∀ h, hd = some h → s.machine.heap.IsExc h.exc)
    fun s hs _ h hh => hs.frame.handled h (Array.mem_of_back? hh)).bind fun hd => ?_
  split
  · next h =>
    exact Triple.throw (fun _ _ _ => trivial) fun _ _ hp a ha => by cases ha; exact hp h rfl
  · exact (safe_raise _).mono (fun _ _ => trivial) (fun _ _ h => h) fun _ _ h => h

theorem safe_checkExcMatch : Safe checkExcMatch := by
  unfold checkExcMatch
  refine safe_pop.bind fun _ => safe_peek.bind fun _ => safe_heap.bind fun _ => ?_
  split
  · exact (safe_ofExcept _).bind fun _ => safe_push _
  · exact safe_internal _

theorem safe_popExcept : Safe popExcept := by
  unfold popExcept
  have hpop : Safe (modifyFrame fun f => { f with handled := f.handled.pop }) :=
    Triple.modifyFrame fun s hs _ => ⟨⟨hs.frame.code, fun hd hm => hs.frame.handled hd
      (Array.mem_def.2 (List.dropLast_subset _ (Array.mem_def.1 hm))), hs.frame.inherited⟩, trivial⟩
  exact (safe_reads _).bind fun _ => Safe.ite (fun _ => (safe_internal _).bind fun _ => hpop)
    fun _ => (Safe.pure ()).bind fun _ => hpop

theorem mem_of_mem_keptHandled {r : HandlerRange} {hs : Array Handled} {hd : Handled}
    (h : hd ∈ r.keptHandled hs) : hd ∈ hs := by
  obtain ⟨rest, heq, -⟩ := r.keptHandled_spec hs
  exact Array.mem_def.2 (heq ▸ List.mem_append_left rest (Array.mem_def.1 h))

/-- Handing an exception of the store to the frame's handlers: the handlers the search keeps
were the frame's, and the one it enters handles this exception. -/
theorem spec_dispatch (exc : Addr) :
    Triple (fun s => s.machine.heap.IsExc exc) (dispatch exc) (fun _ _ => True) := by
  unfold dispatch
  refine (Triple.reads (Q := fun _ s => s.machine.heap.IsExc exc) fun _ _ hp => hp).bind
    fun found => ?_
  cases found with
  | none =>
    refine (Triple.modifyFrame (Q := fun _ s => s.machine.heap.IsExc exc) fun s hs hp =>
      ⟨⟨hs.frame.code, (fun _ h => by simp at h), hs.frame.inherited⟩, hp⟩).bind fun _ => ?_
    exact Triple.throw (fun _ _ _ => trivial) fun _ _ hp a ha => by cases ha; exact hp
  | some r =>
    refine (Triple.modifyFrame (Q := fun _ s => s.machine.heap.IsExc exc) fun s hs hp =>
      ⟨⟨hs.frame.code, (fun hd hm => hs.frame.handled hd (mem_of_mem_keptHandled hm)),
        hs.frame.inherited⟩, hp⟩).bind fun _ => ?_
    refine ((safe_push _).keepExc exc).bind fun _ => ?_
    refine Triple.modifyFrame fun s hs hp => ⟨⟨hs.frame.code, fun hd hm => ?_,
      hs.frame.inherited⟩, trivial⟩
    rcases Array.mem_push.1 hm with hm | rfl
    · exact hs.frame.handled hd hm
    · exact hp

theorem spec_traceDispatch (exc : Addr) :
    Triple (fun s => s.machine.heap.IsExc exc)
      (reads (·.traceEntry) >>= fun entry => vm (Vm.modifyExc exc (·.pushTrace entry)) >>=
        fun _ => dispatch exc) (fun _ _ => True) :=
  (Triple.reads (Q := fun _ s => s.machine.heap.IsExc exc) fun _ _ hp => hp).bind fun entry =>
    ((safe_vm (Vm.safe_pushTrace exc entry)).keepExc exc).bind fun _ => spec_dispatch exc

/-- A failure of the current instruction goes to a handler of the frame or passes on; an
exception it raises is of the store, and so are the links the handling adds. -/
theorem spec_unwind (err : Fault) : Triple (Raised err) (unwind err) (fun _ _ => True) := by
  unfold unwind
  split
  · next exc =>
    refine ((safe_vm (Vm.safe_exc exc)).keepExc exc |>.mono (fun _ hp => hp exc rfl)
      (fun _ _ h => h) fun _ _ _ => trivial).bind fun e => ?_
    dsimp only
    split
    · exact spec_chainHandled exc (spec_traceDispatch exc)
    · exact spec_traceDispatch exc
  · exact Triple.throw (fun _ _ _ => trivial) fun _ _ hp => hp

end Act

end StackVm
