import StackVm.Proofs.Value.Containers
import StackVm.Proofs.Value.Order
import StackVm.Interp.Step

/-! Items of dicts and sets.  A dict finds a key by equality, so it behaves as a map for the keys
that are equal to themselves: after `d[k] = v`, reading `d[k]`, or `d[k']` for any `k'` equal to
`k`, gives `v` and `k in d` holds, while every key not equal to `k` reads what it read before;
after `del d[k]`, reading `d[k]` raises `KeyError` and `k in d` fails, provided no two keys of the
dict were equal, as insertion keeps them.  Likewise a set holds every value equal to itself that
was put into it.  A NaN, or a tuple holding one, is equal to nothing, itself included: it can be
stored, but it is never found. -/

namespace StackVm

namespace Heap

variable {h : Heap}

/-- The value a dict binds to a key, as `d[k]` reads it. -/
def dictGet? (h : Heap) (d : Addr) (k : Value) : Option Value :=
  match h.get? d with
  | some (.dict es) => h.lookup es k
  | _ => none

theorem dictGet?_of_get? {d : Addr} {es : Array (Value × Value)} (hd : h.get? d = some (.dict es))
    (k : Value) : h.dictGet? d k = h.lookup es k := by
  simp [dictGet?, hd]

/-! ### Equality around hashable values -/

theorem eq_trans_of_hashable {x y z : Value} (hy : h.checkHashable y = .ok ())
    (hxy : h.eq x y = true) (hyz : h.eq y z = true) : h.eq x z = true := by
  obtain ⟨q, hxq, hyq⟩ := (eq_true_iff_key hy).mp hxy
  obtain ⟨q', hyq', hzq'⟩ := key_eq_of_eq (.inl hy) hyz
  rw [hyq, Option.some.injEq] at hyq'
  subst hyq'
  exact h.eqAt_of_key_eq hxq hzq'

theorem eq_of_eq_same {x y z : Value} (hz : h.checkHashable z = .ok ()) (hx : h.eq x z = true)
    (hy : h.eq y z = true) : h.eq x y = true :=
  eq_trans_of_hashable hz hx (eq_symm_of_hashable (.inr hz) hy)

/-! ### Looking keys up in dict entries -/

theorem lookup_eq_findKey (es : Array (Value × Value)) (k : Value) :
    h.lookup es k = (h.findKey es k).bind fun i => es[i]?.map Prod.snd := by
  rcases es with ⟨l⟩
  simp only [lookup, findKey, List.find?_toArray, List.findIdx?_toArray,
    List.find?_eq_bind_findIdx?_getElem?, Option.map_bind, List.getElem?_toArray,
    Function.comp_def]

theorem findKey_congr {es es' : Array (Value × Value)}
    (hk : es.toList.map Prod.fst = es'.toList.map Prod.fst) (k : Value) :
    h.findKey es k = h.findKey es' k := by
  rcases es with ⟨l⟩
  rcases es' with ⟨l'⟩
  have hm := congrArg (List.findIdx? (h.eq · k)) hk
  simp only [List.findIdx?_map] at hm
  simpa [findKey, Function.comp_def] using hm

theorem lookup_insertKey_self {es : Array (Value × Value)} {k v : Value} (hk : h.eq k k = true) :
    h.lookup (h.insertKey es k v) k = some v := by
  have hkeys := insertKey_keys (h := h) es k v
  rw [lookup_eq_findKey]
  cases hf : h.findKey es k with
  | some i =>
    rw [hf, Option.isSome_some, if_pos rfl] at hkeys
    obtain ⟨hi, -⟩ := Array.findIdx?_eq_some_iff_getElem.mp hf
    rw [findKey_congr hkeys, hf]
    simp [insertKey, hf, hi, Array.getElem_modify]
  | none =>
    have hnone := Array.findIdx?_eq_none_iff.mp hf
    rcases es with ⟨l⟩
    have hl : l.findIdx? (fun e => h.eq e.1 k) = none :=
      List.findIdx?_eq_none_iff.mpr fun e he => hnone e (by simpa using he)
    simp only [insertKey, findKey, List.findIdx?_toArray, hl, List.push_toArray,
      List.findIdx?_append, List.findIdx?_singleton, hk]
    simp

theorem lookup_insertKey_of_not_eq {es : Array (Value × Value)} {k v k' : Value}
    (hk : h.checkHashable k = .ok ()) (hne : h.eq k' k = false) :
    h.lookup (h.insertKey es k v) k' = h.lookup es k' := by
  cases hf : h.findKey es k with
  | some i =>
    have hkeys := insertKey_keys (h := h) es k v
    rw [hf, Option.isSome_some, if_pos rfl] at hkeys
    rw [lookup_eq_findKey, lookup_eq_findKey, findKey_congr hkeys]
    cases hf' : h.findKey es k' with
    | none => rfl
    | some j =>
      have hij : i ≠ j := by
        rintro rfl
        obtain ⟨hi, hik, -⟩ := Array.findIdx?_eq_some_iff_getElem.mp hf
        obtain ⟨_, hik', -⟩ := Array.findIdx?_eq_some_iff_getElem.mp hf'
        have he := checkHashable_of_eq hik hk
        have hk'k := eq_trans_of_hashable he (eq_symm_of_hashable (.inl he) hik') hik
        rw [hne] at hk'k
        cases hk'k
      simp [insertKey, hf, Array.getElem?_modify, hij]
  | none =>
    have hkk : h.eq k k' = false := by
      cases hkk : h.eq k k' with
      | false => rfl
      | true => rw [← hne, eq_symm_of_hashable (.inl hk) hkk]
    simp [lookup, insertKey, hf, Array.find?_push, hkk]

theorem any_eq_isSome_lookup (es : Array (Value × Value)) (k : Value) :
    es.any (fun e => h.eq e.1 k) = (h.lookup es k).isSome := by
  rw [lookup, Option.isSome_map, Array.isSome_find?]

theorem lookup_erase_found {es : Array (Value × Value)} {k : Value} {i : Nat}
    (hk : h.checkHashable k = .ok ()) (hes : h.KeysApart (es.toList.map Prod.fst))
    (hf : h.findKey es k = some i) : h.lookup (es.eraseIdxIfInBounds i) k = none := by
  obtain ⟨hi, hik, -⟩ := Array.findIdx?_eq_some_iff_getElem.mp hf
  rcases es with ⟨l⟩
  simp only [List.getElem_toArray] at hik
  simp only [lookup, Array.eraseIdxIfInBounds, dif_pos hi, List.eraseIdx_toArray,
    List.find?_toArray,
    Option.map_eq_none_iff, List.find?_eq_none]
  intro e he hek
  obtain ⟨j, hj, hji, rfl⟩ := List.mem_eraseIdx_iff_getElem.mp he
  have hji' := eq_of_eq_same hk hek hik
  have hpair := List.pairwise_iff_getElem.mp hes
  rcases Nat.lt_or_gt_of_ne hji with hlt | hlt
  · have := (hpair j i (by simpa using hj) (by simpa using hi) hlt).1
    simp [hji'] at this
  · have := (hpair i j (by simpa using hi) (by simpa using hj) hlt).2
    simp [hji'] at this

/-! ### Set members -/

theorem any_insertMember_of_any {xs : Array Value} {w : Value} (v : Value)
    (hw : xs.any (h.eq · w) = true) : (h.insertMember xs v).any (h.eq · w) = true := by
  unfold insertMember
  split
  · exact hw
  · simp [hw]

theorem any_insertMember_self {xs : Array Value} {v : Value} (hv : h.eq v v = true) :
    (h.insertMember xs v).any (h.eq · v) = true := by
  unfold insertMember
  split
  · assumption
  · simp [hv]

theorem any_foldl_insertMember_of_any {w : Value} :
    ∀ (vs : List Value) {xs : Array Value}, xs.any (h.eq · w) = true →
      (vs.foldl h.insertMember xs).any (h.eq · w) = true
  | [], _, hw => hw
  | v :: vs, _, hw => any_foldl_insertMember_of_any vs (any_insertMember_of_any v hw)

theorem any_foldl_insertMember {v : Value} (hv : h.eq v v = true) :
    ∀ (vs : List Value) (xs : Array Value), v ∈ vs →
      (vs.foldl h.insertMember xs).any (h.eq · v) = true
  | _ :: vs, _, .head _ => any_foldl_insertMember_of_any vs (any_insertMember_self hv)
  | a :: vs, xs, .tail _ hmem => any_foldl_insertMember hv vs (h.insertMember xs a) hmem

theorem any_insertMember_of_eq {xs : Array Value} {v k : Value} (hk : h.checkHashable k = .ok ())
    (hkv : h.eq k v = true) : (h.insertMember xs v).any (h.eq · k) = true := by
  have hvk := eq_symm_of_hashable (.inl hk) hkv
  have hv := checkHashable_of_eq hvk hk
  rw [← (find_congr hv hk hvk #[] _).2.2]
  exact any_insertMember_self (eq_trans_of_hashable hk hvk hkv)

/-! ### Membership tests -/

theorem containsValue_dict {d : Addr} {es : Array (Value × Value)} {k : Value}
    (hd : h.get? d = some (.dict es)) (hk : h.checkHashable k = .ok ()) :
    h.containsValue (.ref d) k = .ok (h.lookup es k).isSome := by
  simp [containsValue, deref, hd, hk, any_eq_isSome_lookup, bind, Except.bind, pure, Except.pure]

theorem containsValue_set {a : Addr} {xs : Array Value} {k : Value}
    (ha : h.get? a = some (.set xs)) (hk : h.checkHashable k = .ok ()) :
    h.containsValue (.ref a) k = .ok (xs.any (h.eq · k)) := by
  simp [containsValue, deref, ha, hk, bind, Except.bind, pure, Except.pure]

/-- A new set of values added in turn, each of them hashable, has as members the hashable values
equal to one of them. -/
theorem containsValue_new_set {vs : List Value} (hvs : ∀ v ∈ vs, h.checkHashable v = .ok ())
    {v k : Value} (hv : v ∈ vs)
    (hk : (h.alloc (.set (vs.foldl h.insertMember #[]))).1.checkHashable k = .ok ())
    (hkv : (h.alloc (.set (vs.foldl h.insertMember #[]))).1.eq k v = true) :
    (h.alloc (.set (vs.foldl h.insertMember #[]))).1.containsValue (.ref h.objs.size) k =
      .ok true := by
  have hc : h.ChangesContainers (h.alloc (.set (vs.foldl h.insertMember #[]))).1 :=
    changesContainers_alloc rfl
  have hk₀ := hc.checkHashable hk
  have hvk : h.eq v k = true := by
    rw [← hc.eq hk]
    exact eq_symm_of_hashable (.inl hk) hkv
  have hvv := eq_trans_of_hashable hk₀ hvk (eq_symm_of_hashable (.inr hk₀) hvk)
  have hset : (h.alloc (.set (vs.foldl h.insertMember #[]))).1.get? h.objs.size =
      some (.set (vs.foldl h.insertMember #[])) := by
    rw [get?_alloc_eq, if_pos rfl]
  have heq : (fun x => (h.alloc (.set (vs.foldl h.insertMember #[]))).1.eq x k) = (h.eq · k) :=
    funext (hc.eq hk)
  rw [containsValue_set hset hk, heq, ← (find_congr (hvs v hv) hk₀ hvk #[] _).2.2,
    any_foldl_insertMember hvv vs #[] hv]

/-! ### Changing a dict's entries -/

section ModifyDict

variable {d : Addr} {es : Array (Value × Value)}
  (f : Array (Value × Value) → Array (Value × Value))

/-- After a dict's entries change, a value hashable before is hashable, and finds what it found
in the changed entries by the equality of the store before. -/
theorem modify_dict_lookup (hd : h.get? d = some (.dict es)) {k : Value}
    (hk : h.checkHashable k = .ok ()) :
    (h.modify d (Obj.mapDict f)).get? d = some (.dict (f es)) ∧
      (h.modify d (Obj.mapDict f)).checkHashable k = .ok () ∧
      (h.modify d (Obj.mapDict f)).lookup (f es) k = h.lookup (f es) k := by
  obtain ⟨hc, hc'⟩ := changesContainers_modify_dict hd f
  have hk' := hc'.checkHashable hk
  have heq : (fun e : Value × Value => (h.modify d (Obj.mapDict f)).eq e.1 k) =
      fun e => h.eq e.1 k := funext fun e => hc.eq hk' e.1
  refine ⟨by simp [get?_modify_eq, hd, Obj.mapDict], hk', ?_⟩
  simp only [lookup, heq]

theorem dictGet?_modify_dict (hd : h.get? d = some (.dict es)) {k : Value}
    (hk : h.checkHashable k = .ok ()) :
    (h.modify d (Obj.mapDict f)).dictGet? d k = h.lookup (f es) k := by
  obtain ⟨hd', -, hl⟩ := modify_dict_lookup f hd hk
  rw [dictGet?_of_get? hd', hl]

end ModifyDict

end Heap

namespace Ops

variable {m m' : Machine} {d : Addr} {es : Array (Value × Value)} {k v : Value}

/-! ### Items of a dict -/

/-- `d[k]` with a hashable key reads the value the dict binds to the key, or raises `KeyError`
with the key's text. -/
theorem getItem_dict (hd : m.heap.get? d = some (.dict es)) (hk : m.heap.checkHashable k = .ok ()) :
    getItem (.ref d) k m = match m.heap.lookup es k with
      | some w => .ok w m
      | none => Vm.raiseMsg .keyError (m.heap.repr k) m := by
  simp only [getItem, Heap.deref, hd, hk, Vm.ofExcept, bind, EStateM.bind, get, getThe,
    MonadStateOf.get, EStateM.get, pure, EStateM.pure]
  cases m.heap.lookup es k <;> rfl

theorem setItem_dict (hd : m.heap.get? d = some (.dict es)) (hk : m.heap.checkHashable k = .ok ()) :
    setItem (.ref d) k v m =
      .ok () { m with heap := m.heap.modify d (Obj.mapDict (m.heap.insertKey · k v)) } := by
  simp only [setItem, Heap.deref, hd, hk, Vm.ofExcept, Vm.modifyObj, bind, EStateM.bind, get,
    getThe, MonadStateOf.get, EStateM.get, pure, EStateM.pure, modify, modifyGet,
    MonadStateOf.modifyGet, EStateM.modifyGet]

/-- `del d[k]` with a hashable key removes the entry it finds, or raises `KeyError` with the
key's text. -/
theorem delItem_dict (hd : m.heap.get? d = some (.dict es)) (hk : m.heap.checkHashable k = .ok ()) :
    delItem (.ref d) k m = match m.heap.findKey es k with
      | some i => .ok () { m with heap := m.heap.modify d (Obj.mapDict (·.eraseIdxIfInBounds i)) }
      | none => Vm.raiseMsg .keyError (m.heap.repr k) m := by
  simp only [delItem, Heap.deref, hd, hk, Vm.ofExcept, Vm.modifyObj, bind, EStateM.bind, get,
    getThe, MonadStateOf.get, EStateM.get, pure, EStateM.pure, modify, modifyGet,
    MonadStateOf.modifyGet]
  cases m.heap.findKey es k <;> rfl

/-- An unhashable key raises what the check raised, whether the item is read, bound or
removed. -/
theorem dict_unhashable {r : Raise} (hd : m.heap.get? d = some (.dict es))
    (hk : m.heap.checkHashable k = .error r) (v : Value) :
    getItem (.ref d) k m = Vm.raise r m ∧ setItem (.ref d) k v m = Vm.raise r m ∧
      delItem (.ref d) k m = Vm.raise r m := by
  simp only [getItem, setItem, delItem, Heap.deref, hd, hk, Vm.ofExcept, bind, EStateM.bind, get,
    getThe, MonadStateOf.get, EStateM.get]
  exact ⟨rfl, rfl, rfl⟩

theorem setItem_dict_ok {u : Unit} (hd : m.heap.get? d = some (.dict es))
    (hok : setItem (.ref d) k v m = .ok u m') :
    m.heap.checkHashable k = .ok () ∧
      m' = { m with heap := m.heap.modify d (Obj.mapDict (m.heap.insertKey · k v)) } := by
  rcases hk : m.heap.checkHashable k with r | ⟨⟩
  · rw [(dict_unhashable hd hk v).2.1] at hok
    cases hok
  · rw [setItem_dict hd hk] at hok
    cases hok
    exact ⟨rfl, rfl⟩

theorem delItem_dict_ok {u : Unit} (hd : m.heap.get? d = some (.dict es))
    (hok : delItem (.ref d) k m = .ok u m') :
    m.heap.checkHashable k = .ok () ∧ ∃ i, m.heap.findKey es k = some i ∧
      m' = { m with heap := m.heap.modify d (Obj.mapDict (·.eraseIdxIfInBounds i)) } := by
  rcases hk : m.heap.checkHashable k with r | ⟨⟩
  · rw [(dict_unhashable hd hk .none).2.2] at hok
    cases hok
  · rw [delItem_dict hd hk] at hok
    refine ⟨rfl, ?_⟩
    cases hf : m.heap.findKey es k with
    | none =>
      rw [hf] at hok
      cases hok
    | some i =>
      rw [hf] at hok
      cases hok
      exact ⟨i, rfl, rfl⟩

/-! ### Dict items after a change -/

section Round

variable {u : Unit} (hd : m.heap.get? d = some (.dict es))
include hd

theorem getItem_of_setItem (hkk : m.heap.eq k k = true) (hok : setItem (.ref d) k v m = .ok u m')
    {k' : Value} (hk' : m.heap.eq k' k = true) : getItem (.ref d) k' m' = .ok v m' := by
  obtain ⟨hk, rfl⟩ := setItem_dict_ok hd hok
  have hk'₀ := Heap.checkHashable_of_eq hk' hk
  obtain ⟨hd', hk'₁, hl⟩ := Heap.modify_dict_lookup _ hd hk'₀
  rw [getItem_dict hd' hk'₁, hl, (Heap.find_congr hk'₀ hk hk' _ #[]).2.1,
    Heap.lookup_insertKey_self hkk]

theorem containsValue_of_setItem (hkk : m.heap.eq k k = true)
    (hok : setItem (.ref d) k v m = .ok u m') : m'.heap.containsValue (.ref d) k = .ok true := by
  obtain ⟨hk, rfl⟩ := setItem_dict_ok hd hok
  obtain ⟨hd', hk₁, hl⟩ := Heap.modify_dict_lookup _ hd hk
  rw [Heap.containsValue_dict hd' hk₁, hl, Heap.lookup_insertKey_self hkk, Option.isSome_some]

theorem dictGet?_of_setItem (hok : setItem (.ref d) k v m = .ok u m') {k' : Value}
    (hk' : m.heap.checkHashable k' = .ok ()) (hne : m.heap.eq k' k = false) :
    m'.heap.dictGet? d k' = m.heap.dictGet? d k' := by
  obtain ⟨hk, rfl⟩ := setItem_dict_ok hd hok
  rw [Heap.dictGet?_modify_dict _ hd hk', Heap.lookup_insertKey_of_not_eq hk hne,
    Heap.dictGet?_of_get? hd]

/-- After `del d[k]` on a dict whose keys are apart, `d[k]` raises `KeyError` with the key's
text and `k in d` fails. -/
theorem getItem_of_delItem (hes : m.heap.KeysApart (es.toList.map Prod.fst))
    (hok : delItem (.ref d) k m = .ok u m') :
    getItem (.ref d) k m' = Vm.raiseMsg .keyError (m'.heap.repr k) m' ∧
      m'.heap.containsValue (.ref d) k = .ok false := by
  obtain ⟨hk, i, hf, rfl⟩ := delItem_dict_ok hd hok
  obtain ⟨hd', hk₁, hl⟩ := Heap.modify_dict_lookup _ hd hk
  rw [getItem_dict hd' hk₁, Heap.containsValue_dict hd' hk₁, hl,
    Heap.lookup_erase_found hk hes hf]
  exact ⟨rfl, rfl⟩

end Round

end Ops

namespace Act

open EStateM

/-! ### Building a set -/

/-- The loop building a set: when each turn checks its value and adds it to the members,
leaving the state as it was, a finished loop checked every value and holds the members added in
turn. -/
theorem forIn_insertMember {f : Value → Array Value → Act (ForInStep (Array Value))}
    {s : Active}
    (hf : ∀ v r y s', f v r s = .ok y s' →
      s' = s ∧ s.machine.heap.checkHashable v = .ok () ∧
        y = .yield (s.machine.heap.insertMember r v)) :
    ∀ (vs : List Value) (r : Array Value) {xs : Array Value} {s' : Active},
      forIn vs r f s = .ok xs s' →
      s' = s ∧ (∀ v ∈ vs, s.machine.heap.checkHashable v = .ok ()) ∧
        xs = vs.foldl s.machine.heap.insertMember r
  | [], r, xs, s', hok => by
    rw [List.forIn_nil] at hok
    cases hok
    exact ⟨rfl, by simp, rfl⟩
  | v :: vs, r, xs, s', hok => by
    rw [List.forIn_cons] at hok
    cases hstep : f v r s with
    | error e s₁ =>
      simp only [bind, EStateM.bind, hstep] at hok
      cases hok
    | ok y s₁ =>
      obtain ⟨rfl, hv, rfl⟩ := hf v r y s₁ hstep
      simp only [bind, EStateM.bind, hstep] at hok
      obtain ⟨rfl, hvs, rfl⟩ := forIn_insertMember hf vs _ hok
      exact ⟨rfl, by simpa [hv] using hvs, rfl⟩

theorem popN_ok {n : Nat} {s s' : Active} {items : Array Value} (hok : popN n s = .ok items s') :
    items = s.frame.stack.extract (s.frame.stack.size - n) s.frame.stack.size ∧
      s'.machine = s.machine := by
  unfold popN at hok
  simp only [bind, EStateM.bind, reads] at hok
  split at hok
  · cases hok
  · cases hok
    exact ⟨rfl, rfl⟩

theorem push_ok {v : Value} {s s' : Active} {u : Unit} (hok : push v s = .ok u s') :
    s' = ⟨s.machine, { s.frame with stack := s.frame.stack.push v }⟩ := by
  unfold push at hok
  simp only [bind, EStateM.bind, reads] at hok
  split at hok
  · cases hok
  · cases hok
    rfl

theorem vm_alloc (o : Obj) (s : Active) :
    vm (Vm.alloc o) s =
      .ok s.machine.heap.objs.size
        ⟨{ s.machine with heap := (s.machine.heap.alloc o).1 }, s.frame⟩ :=
  rfl

/-- `BuildSet n` leaves on the stack a new set holding the `n` values it took, up to equality:
every hashable value equal to one of them is a member. -/
theorem buildSet_members {n : Nat} {s s' : Active} (hok : buildSet n s = .ok () s') :
    ∃ a xs, s'.frame.stack.back? = some (.ref a) ∧ s'.machine.heap.get? a = some (.set xs) ∧
      ∀ v ∈ s.frame.stack.extract (s.frame.stack.size - n) s.frame.stack.size, ∀ k,
        s'.machine.heap.checkHashable k = .ok () → s'.machine.heap.eq k v = true →
        s'.machine.heap.containsValue (.ref a) k = .ok true := by
  unfold buildSet at hok
  simp only [bind, EStateM.bind] at hok
  split at hok
  · rename_i items s₁ hpop
    have hitems := (popN_ok hpop).1
    split at hok
    · rename_i xs s₂ hloop
      rw [← Array.forIn_toList] at hloop
      obtain ⟨hs₂, hall, hxs⟩ := forIn_insertMember (fun v r y s'' hstep => by
        simp only [EStateM.bind, heap, readsMachine, ofExcept, vm] at hstep
        rcases hc : s₁.machine.heap.checkHashable v with r | ⟨⟩
        · rw [hc] at hstep
          cases hstep
        · rw [hc] at hstep
          cases hstep
          exact ⟨rfl, rfl, rfl⟩) _ _ hloop
      rw [vm_alloc, hs₂, hxs] at hok
      obtain rfl := push_ok hok
      refine ⟨s₁.machine.heap.objs.size,
        List.foldl s₁.machine.heap.insertMember #[] items.toList,
        by simp, by simp [Heap.get?_alloc_eq], fun v hv k hk hkv => ?_⟩
      rw [← hitems] at hv
      exact Heap.containsValue_new_set hall (by simpa using hv) hk hkv
    · cases hok
  · cases hok

end Act

/-- Dicts and sets behave as a map and a set for the hashable keys equal to themselves.  After
`d[k] = v` succeeds, `d[k]` and `d[k']` for every `k'` equal to `k` read `v`, `k in d` holds, and
every hashable key not equal to `k` reads what it read before; after `del d[k]` succeeds on a dict
whose keys are apart (as binding keys keeps them), `d[k]` raises `KeyError` with the key's text
and `k in d` fails.  A set built by `BuildSet` has as members the hashable values equal to the
values it was built from, and adding a value to set members makes the hashable values equal to
it members. -/
theorem dict_items_round_trip :
    (∀ (m m' : Machine) (d : Addr) (es : Array (Value × Value)) (k v : Value),
      m.heap.get? d = some (.dict es) → m.heap.eq k k = true →
      Ops.setItem (.ref d) k v m = .ok () m' →
      Ops.getItem (.ref d) k m' = .ok v m' ∧
      (∀ k', m.heap.eq k' k = true → Ops.getItem (.ref d) k' m' = .ok v m') ∧
      m'.heap.containsValue (.ref d) k = .ok true ∧
      ∀ k', m.heap.checkHashable k' = .ok () → m.heap.eq k' k = false →
        m'.heap.dictGet? d k' = m.heap.dictGet? d k') ∧
    (∀ (m m' : Machine) (d : Addr) (es : Array (Value × Value)) (k : Value),
      m.heap.get? d = some (.dict es) → m.heap.KeysApart (es.toList.map Prod.fst) →
      Ops.delItem (.ref d) k m = .ok () m' →
      Ops.getItem (.ref d) k m' = Vm.raiseMsg .keyError (m'.heap.repr k) m' ∧
      m'.heap.containsValue (.ref d) k = .ok false) ∧
    (∀ (n : Nat) (s s' : Active), Act.buildSet n s = .ok () s' →
      ∃ a xs, s'.frame.stack.back? = some (.ref a) ∧ s'.machine.heap.get? a = some (.set xs) ∧
        ∀ v ∈ s.frame.stack.extract (s.frame.stack.size - n) s.frame.stack.size, ∀ k,
          s'.machine.heap.checkHashable k = .ok () → s'.machine.heap.eq k v = true →
          s'.machine.heap.containsValue (.ref a) k = .ok true) ∧
    (∀ (h : Heap) (xs : Array Value) (v k : Value), h.checkHashable k = .ok () →
      h.eq k v = true → (h.insertMember xs v).any (h.eq · k) = true) :=
  ⟨fun _ _ _ _ _ _ hd hkk hok =>
    ⟨Ops.getItem_of_setItem hd hkk hok hkk, fun _ hk' => Ops.getItem_of_setItem hd hkk hok hk',
      Ops.containsValue_of_setItem hd hkk hok,
      fun _ hk' hne => Ops.dictGet?_of_setItem hd hok hk' hne⟩,
    fun _ _ _ _ _ hd hes hok => Ops.getItem_of_delItem hd hes hok,
    fun _ _ _ hok => Act.buildSet_members hok,
    fun _ _ _ _ hk hkv => Heap.any_insertMember_of_eq hk hkv⟩

/-- The empty dict, alone in the store. -/
def emptyDictMachine : Machine := { heap := { objs := #[.dict #[]] } }

/-- The dict holding the one entry `7: 1`, alone in the store. -/
def sevenDictMachine : Machine := { heap := { objs := #[.dict #[(.int 7, .int 1)]] } }

/-- `d[7] = 1` on an empty dict, then `d[7]` reads `1`. -/
theorem int_key_round_trip :
    Ops.setItem (.ref 0) (.int 7) (.int 1) emptyDictMachine = .ok () sevenDictMachine ∧
      Ops.getItem (.ref 0) (.int 7) sevenDictMachine = .ok (.int 1) sevenDictMachine := by
  have hset : Ops.setItem (.ref 0) (.int 7) (.int 1) emptyDictMachine = .ok () sevenDictMachine := by
    rw [Ops.setItem_dict (show emptyDictMachine.heap.get? 0 = some (.dict #[]) from rfl)
      (show emptyDictMachine.heap.checkHashable (.int 7) = .ok () from rfl)]
    simp [emptyDictMachine, sevenDictMachine, Heap.insertKey, Heap.findKey, Heap.modify,
      Obj.mapDict]
  have hkk : emptyDictMachine.heap.eq (.int 7) (.int 7) = true := by
    rw [Heap.eq_of_asNum rfl rfl]
    decide
  exact ⟨hset, (dict_items_round_trip.1 _ _ 0 #[] _ _ rfl hkk hset).1⟩

/-- The dict holding the one entry `nan: 1`, alone in the store. -/
def nanDictMachine : Machine := { heap := { objs := #[.dict #[(.float Binary64.nan, .int 1)]] } }

/-- A NaN key is stored but never found: `d[nan] = 1` on an empty dict leaves it holding the one
entry `nan: 1`, and reading `d[nan]` right after raises `KeyError`. -/
theorem nan_key_never_found :
    Ops.setItem (.ref 0) (.float Binary64.nan) (.int 1) emptyDictMachine = .ok () nanDictMachine ∧
      Ops.getItem (.ref 0) (.float Binary64.nan) nanDictMachine =
        Vm.raiseMsg .keyError (nanDictMachine.heap.repr (.float Binary64.nan)) nanDictMachine := by
  have hnan : nanDictMachine.heap.eq (.float Binary64.nan) (.float Binary64.nan) = false := by
    rw [Heap.eq_of_asNum rfl rfl]
    decide
  refine ⟨?_, ?_⟩
  · rw [Ops.setItem_dict (show emptyDictMachine.heap.get? 0 = some (.dict #[]) from rfl)
      (show emptyDictMachine.heap.checkHashable (.float Binary64.nan) = .ok () from rfl)]
    simp [emptyDictMachine, nanDictMachine, Heap.insertKey, Heap.findKey, Heap.modify,
      Obj.mapDict]
  · rw [Ops.getItem_dict (show nanDictMachine.heap.get? 0 =
      some (.dict #[(.float Binary64.nan, .int 1)]) from rfl) rfl]
    simp [Heap.lookup, hnan]

end StackVm
