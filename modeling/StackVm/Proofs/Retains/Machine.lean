import StackVm.Proofs.Steady.Machine
import StackVm.Proofs.Loop.Lifecycle

/-! The store keeps what it holds.  The engine places objects at fresh addresses and changes
objects in place, each into one made by the same constructor: a list stays a list, an exception
an exception, a generator a generator.  So every object of the store is still at its address
after any computation of the engine, of the same kind (`Heap.Retains`), whatever the
computation's outcome.  The loop records keep what they hold too: the profiles change only by
new sites and by back-edges, so the loop records and compiled loops of each profile are what a
run of back-edges leaves (`Machine.BackEdgesTo`).  This module proves both of the computations
on the store: the primitives, the exception links and the operators. -/

namespace StackVm

/-- A change of objects that keeps every object's constructor. -/
def Obj.KeepsKind (F : Obj → Obj) : Prop := ∀ o, (F o).ctorIdx = o.ctorIdx

theorem Obj.keepsKind_mapList (f : Array Value → Array Value) : KeepsKind (mapList f) :=
  fun o => by cases o <;> rfl

namespace Heap

/-- A later store: every object of `h` is still at its address in `h'`, made by the same
constructor. -/
def Retains (h h' : Heap) : Prop :=
  ∀ a o, h.get? a = some o → ∃ o', h'.get? a = some o' ∧ o'.ctorIdx = o.ctorIdx

namespace Retains

variable {h h' h'' : Heap} {a : Addr}

theorem refl (h : Heap) : h.Retains h := fun _ o ho => ⟨o, ho, rfl⟩

theorem trans (h₁ : h.Retains h') (h₂ : h'.Retains h'') : h.Retains h'' := by
  intro a o ho
  obtain ⟨o', ho', hk⟩ := h₁ a o ho
  obtain ⟨o'', ho'', hk'⟩ := h₂ a o' ho'
  exact ⟨o'', ho'', hk'.trans hk⟩

theorem alloc (h : Heap) (o : Obj) : h.Retains (h.alloc o).1 :=
  fun _ o' ho' => ⟨o', get?_alloc_of_get? ho', rfl⟩

theorem modify (h : Heap) (a : Addr) {F : Obj → Obj} (hF : Obj.KeepsKind F) :
    h.Retains (h.modify a F) := by
  intro b o ho
  rw [get?_modify_eq]
  split
  · exact ⟨F o, by rw [ho]; rfl, hF o⟩
  · exact ⟨o, ho, rfl⟩

theorem generator (hr : h.Retains h') {g : Generator} (hg : h.get? a = some (.generator g)) :
    ∃ g', h'.get? a = some (.generator g') := by
  obtain ⟨o', ho', hk⟩ := hr a _ hg
  cases o' <;> first | exact ⟨_, ho'⟩ | cases hk

theorem exception (hr : h.Retains h') {e : Exc} (he : h.get? a = some (.exception e)) :
    ∃ e', h'.get? a = some (.exception e') := by
  obtain ⟨o', ho', hk⟩ := hr a _ he
  cases o' <;> first | exact ⟨_, ho'⟩ | cases hk

end Retains

end Heap

/-- A later machine, whose store retains every object of the earlier one and whose profiles hold
the loop records of the earlier one's, moved on by back-edges alone. -/
structure Machine.Retains (m m' : Machine) : Prop where
  heap : m.heap.Retains m'.heap
  loops : ∀ p, m.BackEdgesTo p m'

instance : Std.Refl Machine.Retains :=
  ⟨fun m => ⟨Heap.Retains.refl m.heap, fun p => .refl m p⟩⟩

instance : IsTrans Machine Machine.Retains :=
  ⟨fun _ _ _ h₁ h₂ => ⟨h₁.heap.trans h₂.heap, fun p => (h₁.loops p).trans (h₂.loops p)⟩⟩

theorem Machine.retains_of_heap {m m' : Machine} (h : m'.heap = m.heap)
    (hp : m'.profiles = m.profiles) : m.Retains m' :=
  ⟨h ▸ Heap.Retains.refl m.heap, fun _ => .of_profiles hp⟩

namespace Vm

open EStateM (Keeps)

variable {α β : Type}

/-- A machine computation whose store retains every object it started with. -/
abbrev Retains (x : Vm α) : Prop := Keeps Machine.Retains x

theorem retains_alloc (o : Obj) : Retains (alloc o) :=
  Keeps.modifyGet fun m => ⟨Heap.Retains.alloc m.heap o, fun _ => .of_profiles rfl⟩

theorem retains_obj (a : Addr) : Retains (obj a) := by
  refine Keeps.get_bind fun m => ?_
  split
  · exact Keeps.pure _
  · exact Keeps.throw _

theorem retains_modifyObj (a : Addr) {g : Obj → Obj} (hg : Obj.KeepsKind g) :
    Retains (modifyObj a g) :=
  Keeps.modify fun m => ⟨Heap.Retains.modify m.heap a hg, fun _ => .of_profiles rfl⟩

theorem retains_count (g : Stats → Stats) : Retains (count g) :=
  Keeps.modify fun _ => Machine.retains_of_heap rfl rfl

theorem retains_newExc (e : Exc) : Retains (newExc e) := retains_alloc _

theorem retains_raise (r : Raise) : Retains (raise r : Vm α) :=
  (retains_newExc _).bind fun _ => Keeps.throw _

theorem retains_raiseMsg (t : ExcType) (msg : String) : Retains (raiseMsg t msg : Vm α) :=
  retains_raise _

theorem retains_ofExcept (x : Except Raise α) : Retains (ofExcept x) := by
  cases x with
  | error r => exact retains_raise r
  | ok a => exact Keeps.pure a

theorem retains_internal (msg : String) : Retains (internal msg : Vm α) := Keeps.throw _

theorem retains_int (i : Int) : Retains (int i) :=
  Keeps.ite (fun _ => Keeps.pure _) fun _ => (retains_alloc _).bind fun _ => Keeps.pure _

theorem retains_num (r : Num) : Retains (num r) := by
  cases r with
  | int i => exact retains_int i
  | float f => exact Keeps.pure _

theorem retains_str (s : String) : Retains (str s) := (retains_alloc _).bind fun _ => Keeps.pure _

theorem retains_tuple (xs : Array Value) : Retains (tuple xs) :=
  (retains_alloc _).bind fun _ => Keeps.pure _

theorem retains_list (xs : Array Value) : Retains (list xs) :=
  (retains_alloc _).bind fun _ => Keeps.pure _

theorem retains_exc (a : Addr) : Retains (exc a) := by
  refine (retains_obj a).bind fun o => ?_
  split
  · exact Keeps.pure _
  · exact retains_internal _

theorem retains_modifyExc (a : Addr) (g : Exc → Exc) : Retains (modifyExc a g) :=
  retains_modifyObj _ fun o => by cases o <;> rfl

/-! ### Exception links -/

theorem retains_chainContext (this : Addr) (handled : Option Addr) :
    Retains (chainContext this handled) := by
  unfold chainContext
  split
  · exact Keeps.pure _
  · exact Keeps.get_bind fun _ => Keeps.ite (fun _ => Keeps.pure _) fun _ => retains_modifyExc _ _

theorem retains_setCause (this : Addr) (cause : Option Addr) : Retains (setCause this cause) :=
  Keeps.get_bind fun _ => retains_modifyExc _ _

theorem retains_excOfValue (v : Value) : Retains (excOfValue v) := by
  refine Keeps.get_bind fun m => ?_
  dsimp only
  split
  · exact Keeps.pure _
  · exact retains_newExc _
  · exact retains_raiseMsg _ _

theorem retains_excWithPayload (t : ExcType) (payload : Value) :
    Retains (excWithPayload t payload) :=
  Keeps.get_bind fun _ => retains_newExc _

theorem retains_instantiate (t : ExcType) (args : Array Value) : Retains (instantiate t args) := by
  refine Keeps.get_bind fun m => ?_
  dsimp only
  split
  · exact retains_newExc _
  · refine Keeps.ite (fun _ => retains_excWithPayload _ _) fun _ => ?_
    split
    · exact retains_newExc _
    · exact retains_newExc _
  · exact retains_newExc _

/-! ### Functions and frames -/

theorem retains_codeObj (a : Addr) : Retains (codeObj a) := by
  refine (retains_obj a).bind fun o => ?_
  split
  · exact Keeps.pure _
  · exact retains_internal _

theorem retains_function (a : Addr) : Retains (function a) := by
  refine (retains_obj a).bind fun o => ?_
  split
  · exact Keeps.pure _
  · exact retains_internal _

theorem retains_newFunction (code globals : Addr) (defaults : Array Value) (closure : Array Addr) :
    Retains (newFunction code globals defaults closure) := by
  refine (retains_codeObj code).bind fun c => ?_
  dsimp only
  refine Keeps.ite (fun _ => (Keeps.throw _).bind fun _ => ?_) fun _ => ?_ <;>
    exact Keeps.ite (fun _ => (retains_raiseMsg _ _).bind fun _ => retains_alloc _)
      fun _ => retains_alloc _

theorem retains_raise_bind (r : Raise) (f : α → Vm β) : Retains (raise r >>= f) :=
  fun m => retains_raise (α := α) r m

theorem retains_bind (fn : Function) (args : Array Value) : Retains (bind fn args) := by
  refine (retains_codeObj _).bind fun c => ?_
  dsimp only
  repeat' first
    | exact Keeps.pure _
    | exact retains_raise_bind _ _
    | exact retains_raiseMsg _ _
    | exact retains_tuple _
    | refine Keeps.ite (fun _ => ?_) fun _ => ?_

theorem retains_newFrame (fnAddr : Addr) (args : Array Value) : Retains (newFrame fnAddr args) := by
  refine (retains_function _).bind fun fn => (retains_codeObj _).bind fun c => ?_
  dsimp only
  refine Keeps.ite (fun _ => (retains_internal _).bind fun _ => ?_) fun _ => ?_ <;>
  · refine (Keeps.forIn_array (fun _ _ => (retains_alloc _).bind fun _ => Keeps.pure _) _ _).bind
      fun cells => ?_
    refine (Keeps.forIn_array (fun _ _ => ?_) _ _).bind fun _ => Keeps.pure _
    split
    · exact (retains_modifyObj _ fun o => by cases o <;> rfl).bind fun _ => Keeps.pure _
    · exact Keeps.pure _

end Vm

namespace Ops

open EStateM (Keeps)
open Vm

theorem retains_getItem (obj key : Value) : Retains (getItem obj key) := by
  refine Keeps.get_bind fun m => ?_
  dsimp only
  split
  case h_1 | h_2 | h_4 => exact (retains_ofExcept _).bind fun _ => Keeps.pure _
  case h_3 => exact (retains_ofExcept _).bind fun _ => retains_str _
  case h_5 =>
    refine (retains_ofExcept _).bind fun _ => ?_
    split
    · exact Keeps.pure _
    · exact retains_raiseMsg _ _
  case h_6 => exact retains_raiseMsg _ _

theorem retains_setItem (obj key value : Value) : Retains (setItem obj key value) := by
  refine Keeps.get_bind fun m => ?_
  dsimp only
  split
  case h_1 | h_2 => exact (retains_ofExcept _).bind fun _ => retains_modifyObj _ fun o => by cases o <;> rfl
  case h_3 => exact retains_raiseMsg _ _

theorem retains_delItem (obj key : Value) : Retains (delItem obj key) := by
  refine Keeps.get_bind fun m => ?_
  dsimp only
  split
  case h_1 => exact (retains_ofExcept _).bind fun _ => retains_modifyObj _ fun o => by cases o <;> rfl
  case h_2 =>
    refine (retains_ofExcept _).bind fun _ => ?_
    split
    · exact retains_modifyObj _ fun o => by cases o <;> rfl
    · exact retains_raiseMsg _ _
  case h_3 => exact retains_raiseMsg _ _

theorem retains_bound (n : Native) : Retains (bound n) :=
  (retains_alloc _).bind fun _ => Keeps.pure _

theorem retains_getAttr (obj : Value) (name : String) : Retains (getAttr obj name) := by
  refine Keeps.get_bind fun m => ?_
  dsimp only
  split
  case h_1 | h_2 =>
    split
    · exact Keeps.pure _
    · exact retains_raise _
  case h_3 =>
    split
    · exact Keeps.ite (fun _ => Keeps.pure _) fun _ => retains_raise _
    · split
      · exact Keeps.ite (fun _ => (retains_str _).bind fun _ => retains_tuple _)
          fun _ => retains_tuple _
      · exact retains_tuple _
    all_goals first | exact Keeps.pure _ | exact retains_raise _
  case h_4 | h_5 | h_6 =>
    split
    all_goals first | exact retains_bound _ | exact retains_raise _
  case h_7 => exact retains_raise _

theorem retains_setAttr (obj : Value) (name : String) (value : Value) :
    Retains (setAttr obj name value) := by
  refine Keeps.get_bind fun m => ?_
  dsimp only
  split
  case h_1 =>
    split
    · exact Keeps.ite (fun _ => retains_modifyObj _ fun o => by cases o <;> rfl) fun _ => retains_raise _
    · exact retains_raise _
  case h_2 => exact retains_modifyObj _ fun o => by cases o <;> rfl
  case h_3 => exact retains_raiseMsg _ _

theorem retains_delAttr (obj : Value) (name : String) : Retains (delAttr obj name) := by
  refine Keeps.get_bind fun m => ?_
  dsimp only
  split
  case h_1 =>
    split
    · exact retains_modifyObj _ fun o => by cases o <;> rfl
    · exact retains_raiseMsg _ _
  case h_2 => exact retains_raise _

theorem retains_getIter (v : Value) : Retains (getIter v) := by
  refine Keeps.get_bind fun m => ?_
  dsimp only
  split
  case h_1 => exact Keeps.pure _
  case h_2 => exact Keeps.ite (fun _ => Keeps.pure _) fun _ => retains_raise _
  case h_9 => exact retains_raise _
  all_goals exact (retains_alloc _).bind fun _ => Keeps.pure _

theorem retains_iterNext (a : Addr) (it : Iter) : Retains (iterNext a it) := by
  have tail : ∀ item : Option Value, Retains (if item.isSome = true then do
      modifyObj a (Obj.mapIter fun it => { it with index := it.index + 1 })
      pure item
    else pure item) := fun item =>
    Keeps.ite (fun _ => (retains_modifyObj _ fun o => by cases o <;> rfl).bind fun _ => Keeps.pure _) fun _ => Keeps.pure _
  refine Keeps.get_bind fun m => ?_
  dsimp only
  split
  case h_1 | h_2 | h_4 => exact (Keeps.pure _).bind tail
  case h_3 =>
    split
    · exact ((retains_str _).map _).bind tail
    · exact (Keeps.pure _).bind tail
  case h_5 =>
    exact Keeps.ite (fun _ => ((retains_int _).map _).bind tail) fun _ => (Keeps.pure _).bind tail
  case h_6 | h_7 =>
    split
    · exact Keeps.ite (fun _ => (retains_raiseMsg _ _).bind tail) fun _ => (Keeps.pure _).bind tail
    · exact (Keeps.pure _).bind tail

theorem retains_repeatSeq (seq count : Value) : Retains (repeatSeq seq count) := by
  refine Keeps.get_bind fun m => ?_
  dsimp only
  split
  · refine Keeps.ite (fun _ => (Keeps.pure _).bind fun n => ?_) fun _ => retains_raise_bind _ _
    split
    case h_1 =>
      exact Keeps.ite (fun _ => retains_str _) fun _ => Keeps.ite (fun _ => Keeps.throw _)
        fun _ => retains_str _
    case h_2 =>
      exact Keeps.ite (fun _ => Keeps.throw _) fun _ => (retains_alloc _).bind fun _ => Keeps.pure _
    case h_3 => exact retains_tuple _
    case h_4 => exact retains_list _
    case h_5 => exact retains_raise _
  · exact retains_raise_bind _ _

theorem retains_sequenceBinary (op : BinaryOp) (x y : Value) : Retains (sequenceBinary op x y) := by
  refine Keeps.get_bind fun m => ?_
  dsimp only
  split
  case h_1 => exact (retains_str _).map _
  case h_2 => exact (retains_alloc _).bind fun _ => Keeps.pure _
  case h_3 => exact (retains_tuple _).map _
  case h_4 => exact (retains_list _).map _
  case h_5 =>
    exact Keeps.ite (fun _ => (retains_repeatSeq _ _).map _)
      fun _ => Keeps.ite (fun _ => (retains_repeatSeq _ _).map _) fun _ => Keeps.pure _
  case h_6 => exact Keeps.pure _

theorem retains_binary (op : BinaryOp) (x y : Value) : Retains (binary op x y) := by
  refine Keeps.get_bind fun m => ?_
  dsimp only
  split
  · exact (retains_ofExcept _).bind fun _ => retains_num _
  · split
    · refine (retains_ofExcept _).bind fun _ => (retains_ofExcept _).bind fun _ => ?_
      split
      · exact (retains_ofExcept _).bind fun _ => Keeps.pure _
      · exact retains_raise _
    · refine (retains_sequenceBinary op x y).bind fun r => ?_
      split
      · exact Keeps.pure _
      · exact retains_raise _

theorem retains_unary (op : UnaryOp) (x : Value) : Retains (unary op x) := by
  refine Keeps.get_bind fun m => ?_
  dsimp only
  split
  case h_1 | h_2 | h_3 => exact Keeps.pure _
  case h_4 =>
    split
    case h_4 => exact retains_raise _
    all_goals exact retains_int _

end Ops

namespace Vm

open EStateM (Keeps)

variable {α : Type}

/-! ### Iteration, imports and the helpers of calls -/

theorem retains_drain {next : Value → Vm (Option Value)} (hnext : ∀ v, Retains (next v))
    (it : Value) : ∀ (fuel : Nat) (acc : Array Value), Retains (drain next it fuel acc)
  | 0, _ => Keeps.throw _
  | fuel + 1, acc => by
    refine (hnext it).bind fun r => ?_
    cases r with
    | some v => exact retains_drain hnext it fuel (acc.push v)
    | none => exact Keeps.pure _

theorem retains_iterateWith {next : Value → Vm (Option Value)} (hnext : ∀ v, Retains (next v))
    (v : Value) : Retains (iterateWith next v) :=
  (Ops.retains_getIter v).bind fun it => retains_drain hnext it _ _

theorem retains_importModule (name : String) : Retains (importModule name) := by
  refine Keeps.get_bind fun m => ?_
  split
  · exact Keeps.pure _
  · exact retains_raiseMsg _ _

theorem retains_importFrom (module : Value) (name : String) : Retains (importFrom module name) := by
  refine (Ops.retains_getAttr module name).tryCatch fun err => ?_
  split
  · refine (retains_exc _).bind fun e => Keeps.ite (fun _ => ?_) fun _ => Keeps.throw _
    exact Keeps.get_bind fun _ => retains_raiseMsg _ _
  · exact Keeps.throw _

theorem retains_generator (g : Addr) : Retains (generator g) := by
  refine (retains_obj g).bind fun o => ?_
  split
  · exact Keeps.pure _
  · exact retains_internal _

theorem retains_modifyGenerator (g : Addr) (f : Generator → Generator) :
    Retains (modifyGenerator g f) :=
  retains_modifyObj _ fun o => by cases o <;> rfl

theorem retains_raiseKind (t : ExcType) (msg : String) (kind : ErrorKind) :
    Retains (raiseKind t msg kind : Vm α) :=
  (retains_newExc _).bind fun _ => Keeps.throw _

theorem retains_exhaustedSignal (kind : GeneratorKind) : Retains (exhaustedSignal kind : Vm α) := by
  cases kind with
  | generator => exact retains_raise _
  | coroutine => exact retains_raiseMsg _ _
  | asyncGenerator => exact retains_raise _

theorem retains_completionSignal (kind : GeneratorKind) (v : Value) :
    Retains (completionSignal kind v : Vm α) := by
  unfold completionSignal
  split
  · exact retains_raise _
  · exact (retains_excWithPayload _ _).bind fun _ => Keeps.throw _

theorem retains_throwUnstarted (g fnAddr exc : Addr) : Retains (throwUnstarted g fnAddr exc : Vm α) :=
  (retains_function _).bind fun _ => (retains_codeObj _).bind fun _ =>
    (retains_modifyExc _ _).bind fun _ => (retains_modifyGenerator _ _).bind fun _ => Keeps.throw _

theorem retains_wrapEscaping (kind : GeneratorKind) (err : Fault) :
    Retains (wrapEscaping kind err) := by
  unfold wrapEscaping
  split
  · refine (retains_exc _).bind fun e => ?_
    dsimp only
    split
    · exact (retains_newExc _).bind fun _ => (retains_setCause _ _).bind fun _ => Keeps.pure _
    · exact Keeps.pure _
  · exact Keeps.pure _

theorem retains_arity (name : String) (args : Array Value) (lo hi : Nat) :
    Retains (arity name args lo hi) :=
  Keeps.ite (fun _ => retains_raise _) fun _ => Keeps.pure _

theorem retains_exactArity (name : String) (args : Array Value) (n : Nat) :
    Retains (exactArity name args n) :=
  Keeps.ite (fun _ => retains_raiseMsg _ _) fun _ => Keeps.pure _

theorem retains_rangeBound (v : Value) : Retains (rangeBound v) := by
  refine Keeps.get_bind fun m => ?_
  dsimp only
  split
  case h_1 | h_2 => exact Keeps.pure _
  all_goals exact retains_raiseMsg _ _

theorem retains_listItems (a : Addr) : Retains (listItems a) := by
  refine (retains_obj a).bind fun o => ?_
  split
  · exact Keeps.pure _
  · exact retains_internal _

theorem retains_dictEntries (a : Addr) : Retains (dictEntries a) := by
  refine (retains_obj a).bind fun o => ?_
  split
  · exact Keeps.pure _
  · exact retains_internal _

end Vm

end StackVm
