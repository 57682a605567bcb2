import Mathlib
import StackVm.Ops.Arith
import StackVm.Ops.Compare

/-! The operators on immediate integers and booleans.  On two immediate integers a binary
operator computes `intBinary` and a rich comparison compares the integers; `not` of a boolean
is its negation, and a boolean is its own truth.  These are the cases that compiled loops and
operator sites take without going through the general operators. -/

namespace StackVm

namespace Ops

theorem binary_int (o : BinaryOp) (a b : Int) :
    binary o (.int a) (.int b) = (Vm.ofExcept (intBinary o a b) >>= Vm.num) := by
  funext m
  simp [binary, Heap.asInt?, bind, EStateM.bind, get, getThe, MonadStateOf.get, EStateM.get]

theorem unary_not_bool (b : Bool) : unary .not (.bool b) = pure (.bool !b) := by
  funext m
  simp [unary, Heap.truthy, bind, EStateM.bind, get, getThe, MonadStateOf.get, EStateM.get]

end Ops

namespace Heap

@[simp] theorem truthy_bool (h : Heap) (b : Bool) : h.truthy (.bool b) = b := rfl

theorem compareValues_int (h : Heap) (o : CompareOp) (a b : Int) :
    h.compareValues o (.int a) (.int b) = .ok (o.holds (Ord.compare a b)) := by
  cases o <;> simp [compareValues, Heap.eq, eqAt, orderAt, eqDepth, asNum?, asInt?, Num.compare,
    CompareOp.holds, bne, bind, Except.bind, pure, Except.pure]

end Heap

end StackVm
