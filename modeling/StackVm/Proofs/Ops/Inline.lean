import StackVm.Proofs.Ops.Immediate
import StackVm.Interp.Site

/-! What operator sites compute inline is what the general operators compute.  On two integers
both run integer arithmetic; on two doubles both run double arithmetic, with no conversion to
make; on two strings `+` concatenates either way.  A comparison of two doubles has one answer
when a NaN leaves them unordered, and two strings are equal exactly when they order as equal,
so the inline comparisons agree with value equality too.  The one guess that does not carry
over to every operator is the string guess of a binary site, which is right for `+` only. -/

namespace StackVm

namespace Heap

theorem lexOrder_eq_eq_iff {α : Type} {cmp : α → α → Ordering}
    (hcmp : ∀ a b, cmp a b = .eq ↔ a = b) : ∀ {xs ys : List α}, lexOrder cmp xs ys = .eq ↔ xs = ys
  | [], [] => by simp [lexOrder]
  | [], _ :: _ => by simp [lexOrder]
  | _ :: _, [] => by simp [lexOrder]
  | a :: as, b :: bs => by
    rw [lexOrder, List.cons.injEq]
    cases h : cmp a b with
    | eq => rw [(hcmp a b).1 h, eq_self, true_and]; exact lexOrder_eq_eq_iff hcmp
    | lt | gt =>
      refine iff_of_false (fun h' => nomatch h') fun ⟨hab, _⟩ => ?_
      rw [hab, (hcmp b b).2 rfl] at h
      cases h

theorem strOrder_eq_eq_iff {s t : String} : strOrder s t = .eq ↔ s = t := by
  rw [strOrder, lexOrder_eq_eq_iff fun a b => Std.compare_eq_iff_eq.trans Char.val_inj,
    String.toList_inj]

theorem asStr?_eq_some {h : Heap} {v : Value} {s : String} (hv : h.asStr? v = some s) :
    ∃ a, v = .ref a ∧ h.get? a = some (.str s) := by
  cases v with
  | ref a =>
    refine ⟨a, rfl, ?_⟩
    unfold asStr? deref at hv
    split at hv <;> simp_all
  | _ => simp [asStr?, deref] at hv

theorem compareValues_float (h : Heap) (o : CompareOp) (a b : Float) :
    h.compareValues o (.float a) (.float b) =
      .ok (match Binary64.compareFloat a b with
        | some r => o.holds r
        | none => o == .ne) := by
  cases hc : Binary64.compareFloat a b <;> cases o <;>
    simp [compareValues, Heap.eq, eqAt, orderAt, eqDepth, asNum?, Num.compare, hc,
      CompareOp.holds, bne, bind, Except.bind, pure, Except.pure]

theorem compareValues_str {h : Heap} {x y : Value} {s t : String} (hx : h.asStr? x = some s)
    (hy : h.asStr? y = some t) (o : CompareOp) :
    h.compareValues o x y = .ok (o.holds (strOrder s t)) := by
  obtain ⟨a, rfl, ha⟩ := asStr?_eq_some hx
  obtain ⟨b, rfl, hb⟩ := asStr?_eq_some hy
  have heq : (strOrder s t == .eq) = (s == t) := by
    rw [Bool.eq_iff_iff, beq_iff_eq, beq_iff_eq, strOrder_eq_eq_iff]
  cases o <;>
    simp [compareValues, Heap.eq, eqAt, orderAt, eqDepth, asNum?, asInt?, deref, ha, hb,
      CompareOp.holds, bne, heq, bind, Except.bind, pure, Except.pure]

end Heap

namespace Ops

theorem binary_float {o : BinaryOp} {a b : Float} {r : Except Raise Float}
    (hr : floatBinary o a b = some r) :
    binary o (.float a) (.float b) = do return .float (← Vm.ofExcept r) := by
  funext m
  simp [binary, Heap.asInt?, isFloat, Heap.asNum?, Num.toFloat, Vm.ofExcept, hr, bind,
    EStateM.bind, get, getThe, MonadStateOf.get, EStateM.get, pure, EStateM.pure]

theorem binary_str {m : Machine} {x y : Value} {s t : String} (hx : m.heap.asStr? x = some s)
    (hy : m.heap.asStr? y = some t) : binary .add x y m = Vm.str (s ++ t) m := by
  obtain ⟨a, rfl, ha⟩ := Heap.asStr?_eq_some hx
  obtain ⟨b, rfl, hb⟩ := Heap.asStr?_eq_some hy
  simp [binary, sequenceBinary, Heap.asInt?, isFloat, Heap.deref, ha, hb, bind, EStateM.bind,
    get, getThe, MonadStateOf.get, EStateM.get, pure, Functor.map, EStateM.map]
  cases Vm.str (s ++ t) m <;> rfl

end Ops

variable {h : Heap} {hit : Option SiteCache} {x y : Value}

/-- Every form a binary operator site runs in: a property of the general operator, of an integer
or double result and of a new string is a property of the site's run. -/
theorem binaryAt_cases {P : Vm Value → Prop} (op : BinaryOp) (hgen : P (Ops.binary op x y))
    (hint : ∀ r, P (do Vm.num (← Vm.ofExcept r)))
    (hfloat : ∀ r, P (do return .float (← Vm.ofExcept r))) (hstr : ∀ s, P (Vm.str s)) :
    P (binaryAt h op hit x y) := by
  rcases hit with _ | c
  · exact hgen
  simp only [binaryAt, Option.bind_some]
  unfold inlineBinary
  split
  · exact hint _
  · cases floatBinary op _ _ with
    | none => exact hgen
    | some r => exact hfloat r
  · split
    · exact hstr _
    · exact hgen
  · exact hgen

/-- A binary operator site computes what the general operator computes, unless it hit with the
string guess at an operator other than `+`. -/
theorem binaryAt_run {m : Machine} {op : BinaryOp} (hstr : hit = some .strStr → op = .add) :
    binaryAt m.heap op hit x y m = Ops.binary op x y m := by
  rcases hit with _ | c
  · rfl
  simp only [binaryAt, Option.bind_some]
  unfold inlineBinary
  split
  · rw [Ops.binary_int]
    rfl
  · cases hr : floatBinary op _ _ with
    | none => rfl
    | some r => rw [Ops.binary_float hr]; rfl
  · split
    · next hx hy =>
      obtain rfl := hstr rfl
      exact (Ops.binary_str hx hy).symm
    · rfl
  · rfl

theorem compareValues_of_inline {op : CompareOp} {c : SiteCache} {r : Bool}
    (hc : inlineCompare h op c x y = some r) : h.compareValues op x y = .ok r := by
  unfold inlineCompare at hc
  split at hc
  · cases hc
    exact Heap.compareValues_int h op _ _
  · cases hc
    exact Heap.compareValues_float h op _ _
  · split at hc
    · next hx hy =>
      cases hc
      exact Heap.compareValues_str hx hy op
    · cases hc
  · cases hc

theorem compareAt_eq (op : CompareOp) : compareAt h op hit x y = h.compareValues op x y := by
  unfold compareAt
  split
  · next r hr =>
    obtain ⟨c, -, hc⟩ := Option.bind_eq_some_iff.1 hr
    exact (compareValues_of_inline hc).symm
  · rfl

theorem binaryAt_int (op : BinaryOp) (a b : Int) :
    binaryAt h op hit (.int a) (.int b) = (Vm.ofExcept (intBinary op a b) >>= Vm.num) := by
  rcases hit with _ | c
  · exact Ops.binary_int op a b
  cases c
  case intInt => rfl
  all_goals exact Ops.binary_int op a b

theorem compareAt_int (op : CompareOp) (a b : Int) :
    compareAt h op hit (.int a) (.int b) = .ok (op.holds (compare a b)) := by
  rw [compareAt_eq, Heap.compareValues_int]

end StackVm
