import StackVm.Proofs.Engine.Store
import StackVm.Interp.Run

/-! Text, equality and order recurse through containers: a list, tuple, dict or set is written,
compared or ordered through the values it holds.  Each recursion is cut at a depth, and the
machine's depths lie past any depth a run reaches.

A value whose containers nest `d` deep is settled by depth `d`: every depth from `d` on gives
the same text, the same equality with any other value and the same order against it, so the
cut is never reached.  Containers are shared and changed in place, though, so they need not
nest to any depth: appending a list to itself makes a list that holds itself.  Such a list is
written with one more pair of brackets at each depth, and comparing two of them defers from
each depth to the next, so these recursions run until the depth, or the stack, runs out. -/

namespace StackVm

/-- The values a stored object holds, as the recursions through containers visit them. -/
def Obj.items : Obj → List Value
  | .tuple xs | .list xs | .set xs => xs.toList
  | .dict es => es.toList.flatMap fun e => [e.1, e.2]
  | _ => []

namespace Heap

variable (h : Heap)

/-- The values a value holds: the items of the container it refers to. -/
def held (v : Value) : List Value := ((h.deref v).map Obj.items).getD []

theorem held_of_deref {v : Value} {o : Obj} (hv : h.deref v = some o) : h.held v = o.items := by
  simp [held, hv]

theorem forall_mem_items_dict {P : Value → Prop} {es : Array (Value × Value)} :
    (∀ u ∈ (Obj.dict es).items, P u) ↔ ∀ e ∈ es.toList, P e.1 ∧ P e.2 := by
  simp only [Obj.items, List.mem_flatMap, List.mem_cons, List.mem_nil_iff, or_false]
  exact ⟨fun hp e he => ⟨hp e.1 ⟨e, he, .inl rfl⟩, hp e.2 ⟨e, he, .inr rfl⟩⟩,
    fun hp u ⟨e, he, hu⟩ => hu.elim (· ▸ (hp e he).1) (· ▸ (hp e he).2)⟩

/-- The containers reachable from a value nest fewer than `d` deep. -/
def NestsWithin : Nat → Value → Prop
  | 0, _ => False
  | d + 1, v => ∀ x ∈ h.held v, NestsWithin d x

/-- Induction on the nesting depth: a relation between two depths that passes from the values
a value holds to the value itself, one level up, holds of every value at any two depths past its
nesting. -/
theorem settled_past_nesting {S : Nat → Nat → Value → Prop}
    (step : ∀ n m v, (∀ u ∈ h.held v, S n m u) → S (n + 1) (m + 1) v) :
    ∀ {d : Nat} {v : Value}, h.NestsWithin d v → ∀ {n m : Nat}, d ≤ n → d ≤ m → S n m v := by
  intro d
  induction d with
  | zero => intro v hv; exact hv.elim
  | succ d ih =>
    intro v hv n m hn hm
    obtain ⟨n, rfl⟩ : ∃ k, n = k + 1 := ⟨n - 1, by omega⟩
    obtain ⟨m, rfl⟩ : ∃ k, m = k + 1 := ⟨m - 1, by omega⟩
    exact step n m v fun u hu => ih (hv u hu) (by omega) (by omega)

/-! ### Text -/

theorem objRepr_congr {n m : Nat} {o : Obj}
    (hitems : ∀ x ∈ o.items, h.reprAt n x = h.reprAt m x) : h.objRepr n o = h.objRepr m o := by
  cases o
  case tuple xs | list xs | set xs =>
    simp only [Obj.items] at hitems
    simp only [objRepr, List.map_congr_left hitems]
  case dict es =>
    rw [forall_mem_items_dict] at hitems
    simp only [objRepr]
    congr 3
    apply List.map_congr_left
    intro e he
    rw [(hitems e he).1, (hitems e he).2]
  case cell v => cases v <;> simp [objRepr]
  all_goals simp [objRepr]

theorem reprAt_succ_congr {n m : Nat} {v : Value}
    (hs : ∀ u ∈ h.held v, h.reprAt n u = h.reprAt m u) : h.reprAt (n + 1) v = h.reprAt (m + 1) v := by
  cases v with
  | ref a =>
    simp only [reprAt]
    cases ho : h.get? a with
    | none => rfl
    | some o =>
      rw [held_of_deref h (show h.deref (.ref a) = some o from ho)] at hs
      exact h.objRepr_congr hs
  | bool b => cases b <;> simp [reprAt]
  | _ => simp [reprAt]

theorem reprAt_settles {d : Nat} {v : Value} (hv : h.NestsWithin d v) {n m : Nat}
    (hn : d ≤ n) (hm : d ≤ m) : h.reprAt n v = h.reprAt m v :=
  h.settled_past_nesting (S := fun n m v => h.reprAt n v = h.reprAt m v)
    (fun _ _ _ hs => h.reprAt_succ_congr hs) hv hn hm

/-! ### Equality -/

/-- Equality with a value, on either side, gives one answer at two depths. -/
def EqSettled (n m : Nat) (u : Value) : Prop :=
  ∀ w, h.eqAt n u w = h.eqAt m u w ∧ h.eqAt n w u = h.eqAt m w u

theorem eqItems_congr {n m : Nat} :
    ∀ {xs ys : List Value}, (∀ u ∈ xs, h.EqSettled n m u) ∨ (∀ w ∈ ys, h.EqSettled n m w) →
      h.eqItems n xs ys = h.eqItems m xs ys
  | [], [], _ => by simp [eqItems]
  | [], _ :: _, _ => by simp [eqItems]
  | _ :: _, [], _ => by simp [eqItems]
  | x :: xs, y :: ys, hs => by
    have hxy : h.eqAt n x y = h.eqAt m x y := by
      rcases hs with hs | hs
      · exact (hs x List.mem_cons_self y).1
      · exact (hs y List.mem_cons_self x).2
    have hrest : h.eqItems n xs ys = h.eqItems m xs ys :=
      eqItems_congr (hs.imp (fun hs u hu => hs u (List.mem_cons_of_mem _ hu))
        (fun hs w hw => hs w (List.mem_cons_of_mem _ hw)))
    simp only [eqItems, hxy, hrest]

theorem setSub_congr {n m : Nat} {ys : Array Value} :
    ∀ {xs : List Value}, (∀ u ∈ xs, h.EqSettled n m u) ∨ (∀ w ∈ ys.toList, h.EqSettled n m w) →
      h.setSub n xs ys = h.setSub m xs ys
  | [], _ => by simp [setSub]
  | x :: xs, hs => by
    have hany : ys.any (fun y => h.eqAt n y x) = ys.any (fun y => h.eqAt m y x) := by
      rw [← Array.any_toList, ← Array.any_toList, Bool.eq_iff_iff]
      simp only [List.any_eq_true]
      refine exists_congr fun y => and_congr_right fun hy => ?_
      rcases hs with hs | hs
      · rw [(hs x List.mem_cons_self y).2]
      · rw [(hs y hy x).1]
    have hrest : h.setSub n xs ys = h.setSub m xs ys :=
      setSub_congr (hs.imp_left fun hs u hu => hs u (List.mem_cons_of_mem _ hu))
    simp only [setSub, hany, hrest]

theorem dictSub_congr {n m : Nat} {ys : Array (Value × Value)} :
    ∀ {xs : List (Value × Value)},
      (∀ e ∈ xs, h.EqSettled n m e.1 ∧ h.EqSettled n m e.2) ∨
        (∀ e ∈ ys.toList, h.EqSettled n m e.1 ∧ h.EqSettled n m e.2) →
      h.dictSub n xs ys = h.dictSub m xs ys
  | [], _ => by simp [dictSub]
  | (k, v) :: xs, hs => by
    have hfind : ys.find? (fun e => h.eqAt n e.1 k) = ys.find? (fun e => h.eqAt m e.1 k) := by
      rw [← Array.find?_toList, ← Array.find?_toList]
      refine List.find?_congr fun e he => ?_
      rcases hs with hs | hs
      · exact ((hs (k, v) List.mem_cons_self).1 e.1).2
      · exact ((hs e he).1 k).1
    have hval : ∀ e ∈ ys.toList, h.eqAt n v e.2 = h.eqAt m v e.2 := fun e he => by
      rcases hs with hs | hs
      · exact ((hs (k, v) List.mem_cons_self).2 e.2).1
      · exact ((hs e he).2 v).2
    have hrest : h.dictSub n xs ys = h.dictSub m xs ys :=
      dictSub_congr (hs.imp_left fun hs e he => hs e (List.mem_cons_of_mem _ he))
    simp only [dictSub, hfind, hrest]
    cases hf : ys.find? (fun e => h.eqAt m e.1 k) with
    | none => rfl
    | some e =>
      obtain ⟨k', w⟩ := e
      simp only [hval (k', w) (Array.mem_toList_iff.mpr (Array.mem_of_find?_eq_some hf))]

theorem eqAt_succ_congr {n m : Nat} {x y : Value}
    (hs : (∀ u ∈ h.held x, h.EqSettled n m u) ∨ (∀ w ∈ h.held y, h.EqSettled n m w)) :
    h.eqAt (n + 1) x y = h.eqAt (m + 1) x y := by
  unfold eqAt
  split
  · rfl
  · split
    case h_3 a b _ =>
      have hobj : ∀ {oa ob}, h.get? a = some oa → h.get? b = some ob →
          (∀ u ∈ oa.items, h.EqSettled n m u) ∨ (∀ w ∈ ob.items, h.EqSettled n m w) :=
        fun {oa ob} ha hb => by
          rwa [held_of_deref h (show h.deref (.ref a) = some oa from ha),
            held_of_deref h (show h.deref (.ref b) = some ob from hb)] at hs
      split
      case h_3 xs ys ha hb | h_4 xs ys ha hb =>
        have hs' := hobj ha hb
        simp only [Obj.items] at hs'
        rw [h.eqItems_congr hs']
      case h_5 xs ys ha hb =>
        have hs' := hobj ha hb
        simp only [forall_mem_items_dict] at hs'
        rw [h.dictSub_congr hs']
      case h_6 xs ys ha hb =>
        have hs' := hobj ha hb
        simp only [Obj.items] at hs'
        rw [h.setSub_congr hs']
      all_goals rfl
    all_goals rfl

theorem eqAt_settles {d : Nat} {v : Value} (hv : h.NestsWithin d v) {n m : Nat}
    (hn : d ≤ n) (hm : d ≤ m) : h.EqSettled n m v :=
  h.settled_past_nesting (S := h.EqSettled)
    (fun _ _ _ hs _ => ⟨h.eqAt_succ_congr (.inl hs), h.eqAt_succ_congr (.inr hs)⟩) hv hn hm

/-! ### Order -/

/-- An order comparison with a value, on either side, gives one answer at two depths. -/
def OrderSettled (op : CompareOp) (n m : Nat) (u : Value) : Prop :=
  ∀ w, h.orderAt op n u w = h.orderAt op m u w ∧ h.orderAt op n w u = h.orderAt op m w u

theorem orderItems_congr {op : CompareOp} {n m : Nat} :
    ∀ {xs ys : List Value},
      (∀ u ∈ xs, h.OrderSettled op n m u) ∨ (∀ w ∈ ys, h.OrderSettled op n m w) →
      h.orderItems op n xs ys = h.orderItems op m xs ys
  | [], [], _ => by simp [orderItems]
  | [], _ :: _, _ => by simp [orderItems]
  | _ :: _, [], _ => by simp [orderItems]
  | x :: xs, y :: ys, hs => by
    have hxy : h.orderAt op n x y = h.orderAt op m x y := by
      rcases hs with hs | hs
      · exact (hs x List.mem_cons_self y).1
      · exact (hs y List.mem_cons_self x).2
    have hrest : h.orderItems op n xs ys = h.orderItems op m xs ys :=
      orderItems_congr (hs.imp (fun hs u hu => hs u (List.mem_cons_of_mem _ hu))
        (fun hs w hw => hs w (List.mem_cons_of_mem _ hw)))
    simp only [orderItems, hxy, hrest]

theorem orderAt_succ_congr {op : CompareOp} {n m : Nat} {x y : Value}
    (hs : (∀ u ∈ h.held x, h.OrderSettled op n m u) ∨ (∀ w ∈ h.held y, h.OrderSettled op n m w)) :
    h.orderAt op (n + 1) x y = h.orderAt op (m + 1) x y := by
  unfold orderAt
  split
  · rfl
  · split
    case h_3 xs ys hx hy | h_4 xs ys hx hy =>
      have hs' := hs
      rw [held_of_deref h hx, held_of_deref h hy] at hs'
      simp only [Obj.items] at hs'
      rw [h.orderItems_congr hs']
    all_goals rfl

/-- Past the nesting of its containers, ordering against a value no longer depends on the
depth. -/
theorem orderAt_settles {op : CompareOp} {d : Nat} {v : Value} (hv : h.NestsWithin d v)
    {n m : Nat} (hn : d ≤ n) (hm : d ≤ m) : h.OrderSettled op n m v :=
  h.settled_past_nesting (S := h.OrderSettled op)
    (fun _ _ _ hs _ => ⟨h.orderAt_succ_congr (.inl hs), h.orderAt_succ_congr (.inr hs)⟩) hv hn hm

/-! ### A list that holds itself -/

section SelfList

variable {h} {a b : Addr}

theorem not_nestsWithin_self_list (ha : h.get? a = some (.list #[.ref a])) :
    ∀ d, ¬ h.NestsWithin d (.ref a)
  | 0 => fun hv => hv
  | d + 1 => fun hv => not_nestsWithin_self_list ha d (hv (.ref a) (by simp [held, deref, ha, Obj.items]))

theorem reprAt_succ_self_list (ha : h.get? a = some (.list #[.ref a])) (n : Nat) :
    h.reprAt (n + 1) (.ref a) = "[" ++ h.reprAt n (.ref a) ++ "]" := by
  simp [reprAt, objRepr, ha, joinWith]

theorem length_reprAt_self_list (ha : h.get? a = some (.list #[.ref a])) (n : Nat) :
    (h.reprAt n (.ref a)).length = 2 * n + 3 := by
  induction n with
  | zero =>
    rw [reprAt]
    rfl
  | succ n ih =>
    rw [reprAt_succ_self_list ha, String.length_append, String.length_append, ih]
    have hopen : "[".length = 1 := rfl
    have hclose : "]".length = 1 := rfl
    omega

theorem reprAt_self_list_injective (ha : h.get? a = some (.list #[.ref a])) {n m : Nat}
    (hnm : n ≠ m) : h.reprAt n (.ref a) ≠ h.reprAt m (.ref a) := by
  intro heq
  have hlen := congrArg String.length heq
  rw [length_reprAt_self_list ha, length_reprAt_self_list ha] at hlen
  omega

/-- Two distinct lists each holding only itself are compared by comparing them again, one
level down. -/
theorem eqAt_succ_self_lists (ha : h.get? a = some (.list #[.ref a]))
    (hb : h.get? b = some (.list #[.ref b])) (hab : a ≠ b) (n : Nat) :
    h.eqAt (n + 1) (.ref a) (.ref b) = h.eqAt n (.ref a) (.ref b) := by
  have hne : (a == b) = false := beq_eq_false_iff_ne.mpr hab
  conv_lhs => unfold eqAt
  simp [asNum?, asInt?, ha, hb, hne, eqItems]

theorem eqAt_self_lists (ha : h.get? a = some (.list #[.ref a]))
    (hb : h.get? b = some (.list #[.ref b])) (hab : a ≠ b) (n : Nat) :
    h.eqAt n (.ref a) (.ref b) = false := by
  induction n with
  | zero => simp [eqAt]
  | succ n ih => rw [eqAt_succ_self_lists ha hb hab, ih]

theorem orderAt_succ_self_lists (ha : h.get? a = some (.list #[.ref a]))
    (hb : h.get? b = some (.list #[.ref b])) (hab : a ≠ b) (op : CompareOp) (n : Nat) :
    h.orderAt op (n + 1) (.ref a) (.ref b) = h.orderAt op n (.ref a) (.ref b) := by
  have heq : h.eq (.ref a) (.ref b) = false := eqAt_self_lists ha hb hab eqDepth
  conv_lhs => unfold orderAt
  simp [asNum?, asInt?, deref, ha, hb, orderItems, heq]

end SelfList

end Heap

theorem callNative_listAppend (k : Kit) (l : Addr) (v : Value) (m : Machine) :
    Vm.callNative k (.listAppend l) #[v] m =
      .ok .none { m with heap := m.heap.modify l (Obj.mapList (·.push v)) } := rfl

/-- Text, equality and order recurse through containers.  Past the depth to which a value's
containers nest, every depth gives one answer.  Appending an empty list to itself makes a list
that holds itself, which nests to no depth: its text grows with the depth, and two such lists
are compared by comparing them again one level down, at every depth. -/
theorem nesting_bounds_recursion (h : Heap) :
    (∀ (d : Nat) (v : Value), h.NestsWithin d v → ∀ n m, d ≤ n → d ≤ m →
      h.reprAt n v = h.reprAt m v ∧ h.EqSettled n m v ∧ ∀ op, h.OrderSettled op n m v) ∧
    (∀ (k : Kit) (m : Machine) (l : Addr), m.heap.get? l = some (.list #[]) →
      ∃ m', Vm.callNative k (.listAppend l) #[.ref l] m = .ok .none m' ∧
        m'.heap.get? l = some (.list #[.ref l])) ∧
    (∀ a : Addr, h.get? a = some (.list #[.ref a]) →
      (∀ d, ¬ h.NestsWithin d (.ref a)) ∧
        ∀ n m, n ≠ m → h.reprAt n (.ref a) ≠ h.reprAt m (.ref a)) ∧
    (∀ a b : Addr, h.get? a = some (.list #[.ref a]) →
      h.get? b = some (.list #[.ref b]) → a ≠ b → ∀ op n,
        h.eqAt (n + 1) (.ref a) (.ref b) = h.eqAt n (.ref a) (.ref b) ∧
        h.orderAt op (n + 1) (.ref a) (.ref b) = h.orderAt op n (.ref a) (.ref b)) := by
  refine ⟨?_, ?_, ?_, ?_⟩
  · intro d v hv n m hn hm
    exact ⟨h.reprAt_settles hv hn hm, h.eqAt_settles hv hn hm, fun _ => h.orderAt_settles hv hn hm⟩
  · intro k m l hl
    refine ⟨_, callNative_listAppend k l (.ref l) m, ?_⟩
    rw [Heap.get?_modify_eq, if_pos rfl, hl]
    rfl
  · intro a ha
    exact ⟨Heap.not_nestsWithin_self_list ha, fun _ _ => Heap.reprAt_self_list_injective ha⟩
  · intro a b ha hb hab op n
    exact ⟨Heap.eqAt_succ_self_lists ha hb hab n, Heap.orderAt_succ_self_lists ha hb hab op n⟩

/-- The list at address `0` of a one-object store holds only itself, and is written differently
at depths one and two. -/
theorem self_list_text_grows :
    (⟨#[.list #[.ref 0]]⟩ : Heap).get? 0 = some (.list #[.ref 0]) ∧
      (⟨#[.list #[.ref 0]]⟩ : Heap).reprAt 1 (.ref 0) ≠ (⟨#[.list #[.ref 0]]⟩ : Heap).reprAt 2 (.ref 0) :=
  ⟨rfl, ((nesting_bounds_recursion ⟨#[.list #[.ref 0]]⟩).2.2.1 0 rfl).2 1 2 (by decide)⟩

end StackVm
