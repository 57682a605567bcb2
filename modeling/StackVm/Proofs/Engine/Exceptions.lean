import StackVm.Proofs.Engine.Operation
import StackVm.Proofs.Steady.Machine

/-! The exception operations of the machine keep it sound.  A traceback entry and a dropped
context change no link.  A context is recorded only when the search finds that the handled
exception does not lead back to the one raised, and a cause only when the cause does not; both
lead to exceptions when the machine's context and the frame's handled exceptions do.  The
exception a raised value denotes is an exception of the store, and so are the new exceptions
the engine raises. -/

namespace StackVm

open EngineState

namespace Vm

variable {α : Type}

theorem safe_modifyExc_sub (a : Addr) {f : Exc → Exc}
    (hf : ∀ e, (Obj.exception (f e)).links ⊆ (Obj.exception e).links) : Safe (modifyExc a f) :=
  spec_modifyObj (fun _ _ _ o _ => .mapExc f o) (fun _ hs _ => hs.modify_exc_sub hf)
    fun _ _ _ => trivial

theorem links_pushTrace (e : Exc) (t : TraceEntry) :
    (Obj.exception (e.pushTrace t)).links = (Obj.exception e).links := by
  unfold Exc.pushTrace
  split <;> rfl

theorem safe_pushTrace (a : Addr) (t : TraceEntry) : Safe (modifyExc a (·.pushTrace t)) :=
  safe_modifyExc_sub a fun e => by
    rw [links_pushTrace]
    exact List.Subset.refl _

theorem safe_dropContext (a : Addr) : Safe (modifyExc a fun e => { e with context := none }) :=
  safe_modifyExc_sub a fun e b hb => by
    simp only [Obj.links, Option.toList_none, List.nil_append] at hb
    exact List.mem_append_right _ hb

theorem safe_exc (a : Addr) : Safe (exc a) :=
  (spec_exc (P := fun _ => True) a).mono (fun _ h => h) (fun _ _ _ => trivial) fun _ _ _ => trivial

/-- Recording the handled exception as the context of `this`: the link is made only when the
search finds that the handled exception does not lead back to `this`. -/
theorem spec_chainContext (this : Addr) (handled : Option Addr) :
    Triple (fun m => ∀ a, handled = some a → m.heap.IsExc a) (chainContext this handled)
      (fun _ _ => True) := by
  unfold chainContext
  split
  · exact Triple.pure fun _ _ _ => trivial
  · next hd =>
    refine Triple.get_bind (fun m₀ => ?_) fun _ => rfl
    dsimp only
    split
    · exact Triple.pure fun _ _ _ => trivial
    · next hno =>
      simp only [Bool.or_eq_true, beq_iff_eq, not_or, Bool.not_eq_true] at hno
      refine spec_modifyObj (fun _ _ _ o _ => .mapExc _ o) (fun m hs hp => ?_) fun _ _ _ => trivial
      obtain ⟨hexc, rfl⟩ := hp
      refine hs.modify_exc_add (v := hd) (fun e b hb => ?_) (hexc hd rfl)
        (Heap.not_reflTransGen_of_search hno.1 hno.2)
      simp only [Obj.links, Option.toList_some, List.singleton_append, List.mem_cons] at hb
      rcases hb with rfl | hb
      · exact .inr rfl
      · exact .inl (List.mem_append_right _ hb)

theorem spec_setCause (this : Addr) (cause : Option Addr) :
    Triple (fun m => ∀ c, cause = some c → m.heap.IsExc c) (setCause this cause)
      (fun _ _ => True) := by
  unfold setCause
  refine Triple.get_bind (fun m₀ => ?_) fun _ => rfl
  dsimp only
  cases hc : cause.filter fun c => !(c == this || chainReaches m₀.heap c this) with
  | none =>
    refine spec_modifyObj (fun _ _ _ o _ => .mapExc _ o) (fun m hs _ => ?_) fun _ _ _ => trivial
    refine hs.modify_exc_sub fun e b hb => ?_
    simp only [Obj.links, Option.toList_none, List.append_nil] at hb
    exact List.mem_append_left _ hb
  | some c =>
    obtain ⟨hsome, hkeep⟩ := Option.filter_eq_some_iff.1 hc
    simp only [Bool.not_eq_true', Bool.or_eq_false_iff, beq_eq_false_iff_ne] at hkeep
    refine spec_modifyObj (fun _ _ _ o _ => .mapExc _ o) (fun m hs hp => ?_) fun _ _ _ => trivial
    obtain ⟨hexc, rfl⟩ := hp
    refine hs.modify_exc_add (v := c) (fun e b hb => ?_) (hexc c hsome)
      (Heap.not_reflTransGen_of_search hkeep.1 hkeep.2)
    simp only [Obj.links, Option.toList_some, List.mem_append, List.mem_singleton] at hb
    rcases hb with hb | rfl
    · exact .inl (List.mem_append_left _ hb)
    · exact .inr rfl

theorem spec_excOfValue (v : Value) :
    Triple (fun _ => True) (excOfValue v) (fun a m => m.heap.IsExc a) := by
  unfold excOfValue
  refine Triple.get_bind (fun m₀ => ?_) fun _ => rfl
  dsimp only
  split
  · next a e he => exact Triple.pure fun m _ hp => hp.2 ▸ ⟨e, he⟩
  · exact spec_newExc (fun _ _ _ b hb => by cases hb) fun m _ _ => ⟨_, Heap.get?_alloc _ _⟩
  · exact spec_raise _ fun _ _ _ => trivial

theorem safe_excOfValue (v : Value) : Safe (excOfValue v) :=
  (spec_excOfValue v).mono (fun _ h => h) (fun _ _ _ => trivial) fun _ _ _ => trivial

theorem safe_excWithPayload (t : ExcType) (payload : Value) : Safe (excWithPayload t payload) :=
  safe_get_bind (fun _ => Safe.bind (spec_newExc (fun _ _ _ b hb => by cases hb)
    fun _ _ _ => trivial) fun _ => Safe.pure _) fun _ => rfl

theorem safe_instantiate (t : ExcType) (args : Array Value) : Safe (instantiate t args) := by
  unfold instantiate
  have fresh : ∀ e : Exc, e.context = none → e.cause = none → Safe (newExc e) :=
    fun e hx hy => spec_newExc (fun _ _ _ b hb => by simp [Obj.links, hx, hy] at hb)
      fun _ _ _ => trivial
  refine safe_get_bind (fun m => ?_) fun _ => rfl
  dsimp only
  split
  · exact fresh _ rfl rfl
  · split
    · exact safe_excWithPayload _ _
    · split
      · exact fresh _ rfl rfl
      · exact fresh _ rfl rfl
  · exact fresh _ rfl rfl

end Vm

end StackVm
