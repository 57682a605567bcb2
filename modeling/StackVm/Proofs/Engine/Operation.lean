import StackVm.Proofs.Engine.Activation

/-! The operations on values keep the machine sound and commute with erasing: they read the
store, place ordinary objects, change lists, dicts, iterators, modules and the slots of host
objects in place, and raise new exceptions.  None of them reads what specialization leaves
behind. -/

namespace StackVm

open EngineState

namespace Ops

theorem safe_getItem (obj key : Value) : Safe (getItem obj key) := by
  unfold getItem
  refine Vm.safe_get_bind (fun m => ?_) fun _ => rfl
  dsimp only
  split
  case h_1 | h_2 | h_4 => exact (Vm.safe_ofExcept _).bind fun _ => Safe.pure _
  case h_3 => exact (Vm.safe_ofExcept _).bind fun _ => Vm.safe_str _
  case h_5 =>
    refine (Vm.safe_ofExcept _).bind fun _ => ?_
    split
    · exact Safe.pure _
    · exact Vm.safe_raiseMsg _ _
  case h_6 => exact Vm.safe_raiseMsg _ _

theorem safe_setItem (obj key value : Value) : Safe (setItem obj key value) := by
  unfold setItem
  refine Vm.safe_get_bind (fun m => ?_) fun _ => rfl
  dsimp only
  split
  case h_1 a xs _ =>
    exact (Vm.safe_ofExcept _).bind fun _ => Vm.safe_modifyObj_plain a (Obj.plain_mapList _)
  case h_2 a es _ =>
    exact (Vm.safe_ofExcept _).bind fun _ => Vm.safe_modifyObj_plain a (Obj.plain_mapDict _)
  case h_3 => exact Vm.safe_raiseMsg _ _

theorem safe_delItem (obj key : Value) : Safe (delItem obj key) := by
  unfold delItem
  refine Vm.safe_get_bind (fun m => ?_) fun _ => rfl
  dsimp only
  split
  case h_1 a xs _ =>
    exact (Vm.safe_ofExcept _).bind fun _ => Vm.safe_modifyObj_plain a (Obj.plain_mapList _)
  case h_2 a es _ =>
    refine (Vm.safe_ofExcept _).bind fun _ => ?_
    split
    · exact Vm.safe_modifyObj_plain a (Obj.plain_mapDict _)
    · exact Vm.safe_raiseMsg _ _
  case h_3 => exact Vm.safe_raiseMsg _ _

theorem safe_bound (n : Native) : Safe (bound n) :=
  Safe.bind (Vm.safe_alloc (.native n) trivial) fun _ => Safe.pure _

theorem safe_getAttr (obj : Value) (name : String) : Safe (getAttr obj name) := by
  unfold getAttr
  refine Vm.safe_get_bind (fun m => ?_) fun _ => rfl
  dsimp only
  split
  case h_1 | h_2 =>
    split
    · exact Safe.pure _
    · exact Vm.safe_raise _
  case h_3 =>
    split
    · exact Safe.ite (fun _ => Safe.pure _) fun _ => Vm.safe_raise _
    · split
      · exact Safe.ite (fun _ => (Vm.safe_str _).bind fun _ => Vm.safe_tuple _)
          fun _ => Vm.safe_tuple _
      · exact Vm.safe_tuple _
    all_goals first | exact Safe.pure _ | exact Vm.safe_raise _
  case h_4 | h_5 | h_6 =>
    split
    all_goals first | exact safe_bound _ | exact Vm.safe_raise _
  case h_7 => exact Vm.safe_raise _

theorem safe_setAttr (obj : Value) (name : String) (value : Value) :
    Safe (setAttr obj name value) := by
  unfold setAttr
  refine Vm.safe_get_bind (fun m => ?_) fun _ => rfl
  dsimp only
  split
  case h_1 a o _ =>
    split
    · refine Safe.ite (fun _ => ?_) fun _ => Vm.safe_raise _
      exact Vm.safe_modifyObj_host a _ (fun _ => rfl) fun _ => rfl
    · exact Vm.safe_raise _
  case h_2 a _ _ => exact Vm.safe_modifyObj_plain a (Obj.plain_mapModule _)
  case h_3 => exact Vm.safe_raiseMsg _ _

theorem safe_delAttr (obj : Value) (name : String) : Safe (delAttr obj name) := by
  unfold delAttr
  refine Vm.safe_get_bind (fun m => ?_) fun _ => rfl
  dsimp only
  split
  case h_1 a _ _ =>
    split
    · exact Vm.safe_modifyObj_plain a (Obj.plain_mapModule _)
    · exact Vm.safe_raiseMsg _ _
  case h_2 => exact Vm.safe_raise _

theorem safe_getIter (v : Value) : Safe (getIter v) := by
  unfold getIter
  refine Vm.safe_get_bind (fun m => ?_) fun _ => rfl
  dsimp only
  have fresh : ∀ s, Safe (do return Value.ref (← Vm.alloc (.iterator { source := s }))) :=
    fun s => Safe.bind (Vm.safe_alloc (.iterator _) trivial) fun _ => Safe.pure _
  split
  case h_1 => exact Safe.pure _
  case h_2 => exact Safe.ite (fun _ => Safe.pure _) fun _ => Vm.safe_raise _
  case h_9 => exact Vm.safe_raise _
  all_goals exact fresh _

theorem safe_iterNext (a : Addr) (it : Iter) : Safe (iterNext a it) := by
  have tail : ∀ item : Option Value, Safe (if item.isSome = true then do
      Vm.modifyObj a (Obj.mapIter fun it => { it with index := it.index + 1 })
      pure item
    else pure item) := fun item =>
    Safe.ite (fun _ => Safe.bind (Vm.safe_modifyObj_plain a (Obj.plain_mapIter _))
      fun _ => Safe.pure _) fun _ => Safe.pure _
  unfold iterNext
  refine Vm.safe_get_bind (fun m => ?_) fun _ => rfl
  dsimp only
  split
  case h_1 | h_2 | h_4 => exact (Safe.pure _).bind tail
  case h_3 =>
    split
    · exact ((Vm.safe_str _).map _).bind tail
    · exact (Safe.pure _).bind tail
  case h_5 =>
    exact Safe.ite (fun _ => ((Vm.safe_int _).map _).bind tail) fun _ => (Safe.pure _).bind tail
  case h_6 | h_7 =>
    split
    · exact Safe.ite (fun _ => (Vm.safe_raiseMsg _ _).bind tail) fun _ => (Safe.pure _).bind tail
    · exact (Safe.pure _).bind tail

theorem safe_repeatSeq (seq count : Value) : Safe (repeatSeq seq count) := by
  unfold repeatSeq
  refine Vm.safe_get_bind (fun m => ?_) fun _ => rfl
  dsimp only
  have exhausted : Safe (throw .exhausted : Vm Value) := Safe.throw fun _ h => by cases h
  split
  · refine Safe.ite (fun _ => (Safe.pure _).bind fun n => ?_) fun _ => Vm.safe_raise_bind _ _
    split
    case h_1 =>
      exact Safe.ite (fun _ => Vm.safe_str _) fun _ => Safe.ite (fun _ => exhausted)
        fun _ => Vm.safe_str _
    case h_2 =>
      exact Safe.ite (fun _ => exhausted)
        fun _ => Safe.bind (Vm.safe_alloc (.bytes _) trivial) fun _ => Safe.pure _
    case h_3 => exact Vm.safe_tuple _
    case h_4 => exact Vm.safe_list _
    case h_5 => exact Vm.safe_raise _
  · exact Vm.safe_raise_bind _ _

theorem safe_sequenceBinary (op : BinaryOp) (x y : Value) : Safe (sequenceBinary op x y) := by
  unfold sequenceBinary
  refine Vm.safe_get_bind (fun m => ?_) fun _ => rfl
  dsimp only
  split
  case h_1 => exact (Vm.safe_str _).map _
  case h_2 => exact Safe.bind (Vm.safe_alloc (.bytes _) trivial) fun _ => Safe.pure _
  case h_3 => exact (Vm.safe_tuple _).map _
  case h_4 => exact (Vm.safe_list _).map _
  case h_5 =>
    exact Safe.ite (fun _ => (safe_repeatSeq _ _).map _)
      fun _ => Safe.ite (fun _ => (safe_repeatSeq _ _).map _) fun _ => Safe.pure _
  case h_6 => exact Safe.pure _

theorem safe_binary (op : BinaryOp) (x y : Value) : Safe (binary op x y) := by
  unfold binary
  refine Vm.safe_get_bind (fun m => ?_) fun _ => rfl
  dsimp only
  split
  · exact (Vm.safe_ofExcept _).bind fun _ => Vm.safe_num _
  · split
    · refine (Vm.safe_ofExcept _).bind fun _ => (Vm.safe_ofExcept _).bind fun _ => ?_
      split
      · exact (Vm.safe_ofExcept _).bind fun _ => Safe.pure _
      · exact Vm.safe_raise _
    · refine (safe_sequenceBinary op x y).bind fun r => ?_
      split
      · exact Safe.pure _
      · exact Vm.safe_raise _

theorem safe_unary (op : UnaryOp) (x : Value) : Safe (unary op x) := by
  unfold unary
  refine Vm.safe_get_bind (fun m => ?_) fun _ => rfl
  dsimp only
  split
  case h_1 | h_2 | h_3 => exact Safe.pure _
  case h_4 =>
    split
    case h_4 => exact Vm.safe_raise _
    all_goals exact Vm.safe_int _

end Ops

end StackVm
