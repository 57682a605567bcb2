import StackVm.Proofs.Value.Number

/-! Hashing agrees with equality.  Among the values that may be dict keys or set members (no
list, dict or set inside), two are equal exactly when they stand for one thing, their key: a
number its exact value, a string or byte string its content, a tuple the keys of its items, and
any other object itself.  The hash of a value is a function of its key, so equal keys hash
alike; and because equality is having one key, it goes both ways and passes along.  Hence a
dict or set that searches by equality holds no two equal keys, and finds the same entry by any
key equal to one it holds, just as a search by hash would. -/

namespace StackVm

/-- What a hashable value stands for when values are compared. -/
inductive ValueKey where
  | num (k : Int ⊕ Bool)
  | none
  | excType (t : ExcType)
  | str (s : String)
  | bytes (b : Array UInt8)
  | tuple (ks : List ValueKey)
  | obj (a : Addr)

namespace Heap

variable (h : Heap)

mutual

/-- The key of a value, through nested tuples to a bounded depth: `none` for a NaN, for a tuple
holding one, and past the depth. -/
def keyAt : Nat → Value → Option ValueKey
  | 0, _ => none
  | fuel + 1, v =>
    match h.asNum? v with
    | some n => n.key.map .num
    | none =>
      match v with
      | .none => some .none
      | .excType t => some (.excType t)
      | .ref a =>
        match h.get? a with
        | some (.str s) => some (.str s)
        | some (.bytes b) => some (.bytes b.data)
        | some (.tuple xs) => (keyItems fuel xs.toList).map .tuple
        | _ => some (.obj a)
      | _ => none

/-- The keys of a sequence of items, if each has one. -/
def keyItems (fuel : Nat) : List Value → Option (List ValueKey)
  | [] => some []
  | x :: xs =>
    match keyAt fuel x, keyItems fuel xs with
    | some k, some ks => some (k :: ks)
    | _, _ => none

end

/-- How a value comes to its key with one more level of depth to go. -/
inductive KeyOf (fuel : Nat) : Value → ValueKey → Prop
  | num {v : Value} {n : Num} {k : Int ⊕ Bool} :
      h.asNum? v = some n → n.key = some k → KeyOf fuel v (.num k)
  | none : KeyOf fuel .none .none
  | excType (t : ExcType) : KeyOf fuel (.excType t) (.excType t)
  | str {a : Addr} {s : String} : h.get? a = some (.str s) → KeyOf fuel (.ref a) (.str s)
  | bytes {a : Addr} {b : ByteArray} {d : Array UInt8} :
      h.get? a = some (.bytes b) → b.data = d → KeyOf fuel (.ref a) (.bytes d)
  | tuple {a : Addr} {xs : Array Value} {ks : List ValueKey} :
      h.get? a = some (.tuple xs) → h.keyItems fuel xs.toList = some ks →
      KeyOf fuel (.ref a) (.tuple ks)
  | obj {a : Addr} : h.asNum? (.ref a) = none → (∀ s, h.get? a ≠ some (.str s)) →
      (∀ b, h.get? a ≠ some (.bytes b)) → (∀ xs, h.get? a ≠ some (.tuple xs)) →
      KeyOf fuel (.ref a) (.obj a)

theorem keyAt_succ {fuel : Nat} {v : Value} {k : ValueKey} :
    h.keyAt (fuel + 1) v = some k ↔ h.KeyOf fuel v k := by
  constructor
  · intro hk
    cases hn : h.asNum? v with
    | some n =>
      unfold keyAt at hk
      rw [hn] at hk
      obtain ⟨q, hq, rfl⟩ := Option.map_eq_some_iff.mp hk
      exact .num hn hq
    | none =>
      unfold keyAt at hk
      rw [hn] at hk
      cases v with
      | none => cases hk; exact .none
      | excType t => cases hk; exact .excType t
      | ref a =>
        cases hg : h.get? a with
        | none =>
          simp only [hg] at hk
          cases hk
          exact .obj hn (by simp [hg]) (by simp [hg]) (by simp [hg])
        | some o =>
          simp only [hg] at hk
          cases o with
          | str s => cases hk; exact .str hg
          | bytes b => cases hk; exact .bytes hg rfl
          | tuple xs =>
            obtain ⟨ks, hks, rfl⟩ := Option.map_eq_some_iff.mp hk
            exact .tuple hg hks
          | _ => cases hk; exact .obj hn (by simp [hg]) (by simp [hg]) (by simp [hg])
      | _ => cases hk
  · intro hk
    cases hk with
    | num hn hq => unfold keyAt; rw [hn]; simp [hq]
    | none => simp [keyAt, asNum?, asInt?]
    | excType t => simp [keyAt, asNum?, asInt?]
    | str hg => simp [keyAt, asNum?, asInt?, hg]
    | bytes hg hd => simp [keyAt, asNum?, asInt?, hg, hd]
    | tuple hg hks => simp [keyAt, asNum?, asInt?, hg, hks]
    | @obj a hn hs hb ht =>
      unfold keyAt
      rw [hn]
      dsimp only
      split
      · exact absurd ‹_› (hs _)
      · exact absurd ‹_› (hb _)
      · exact absurd ‹_› (ht _)
      · rfl

theorem keyItems_cons {fuel : Nat} {x : Value} {xs : List Value} {ks : List ValueKey} :
    h.keyItems fuel (x :: xs) = some ks ↔
      ∃ k ks', h.keyAt fuel x = some k ∧ h.keyItems fuel xs = some ks' ∧ ks = k :: ks' := by
  constructor
  · intro hk
    simp only [keyItems] at hk
    split at hk
    · cases hk
      exact ⟨_, _, ‹_›, ‹_›, rfl⟩
    · cases hk
  · rintro ⟨k, ks', hk, hks, rfl⟩
    simp only [keyItems, hk, hks]

theorem eqAt_ref_self {fuel : Nat} {a : Addr} (hn : h.asNum? (.ref a) = none)
    (ht : ∀ xs, h.get? a ≠ some (.tuple xs)) : h.eqAt (fuel + 1) (.ref a) (.ref a) = true := by
  unfold eqAt
  rw [hn]
  dsimp only
  split
  · simp_all
  · simp_all
  · exact absurd ‹_› (ht _)
  all_goals simp

/-- Items with one list of keys are equal item by item, given that values with one key are
equal. -/
theorem eqItems_of_keyItems {fuel : Nat}
    (ih : ∀ {x y k}, h.keyAt fuel x = some k → h.keyAt fuel y = some k → h.eqAt fuel x y = true) :
    ∀ {xs ys : List Value} {ks : List ValueKey}, h.keyItems fuel xs = some ks →
      h.keyItems fuel ys = some ks → h.eqItems fuel xs ys = true
  | [], [], _, _, _ => by simp [eqItems]
  | [], _ :: _, _, hx, hy => by
    obtain ⟨_, _, _, _, rfl⟩ := h.keyItems_cons.mp hy
    simp [keyItems] at hx
  | _ :: _, [], _, hx, hy => by
    obtain ⟨_, _, _, _, rfl⟩ := h.keyItems_cons.mp hx
    simp [keyItems] at hy
  | x :: xs, y :: ys, _, hx, hy => by
    obtain ⟨k, ks, hk, hks, rfl⟩ := h.keyItems_cons.mp hx
    obtain ⟨k', ks', hk', hks', he⟩ := h.keyItems_cons.mp hy
    obtain ⟨rfl, rfl⟩ := List.cons.inj he
    simp only [eqItems, ih hk hk', eqItems_of_keyItems ih hks hks', Bool.and_self]

theorem eqAt_of_key_eq : ∀ {fuel : Nat} {x y : Value} {k : ValueKey},
    h.keyAt fuel x = some k → h.keyAt fuel y = some k → h.eqAt fuel x y = true
  | 0, _, _, _, hx, _ => by simp [keyAt] at hx
  | fuel + 1, x, y, k, hx, hy => by
    rw [keyAt_succ] at hx hy
    cases hx with
    | num hnx ha =>
      cases hy with
      | num hny hb =>
        unfold eqAt
        rw [hnx, hny]
        simp [Num.compare_eq_eq_iff.mpr ⟨_, ha, hb⟩]
    | none => cases hy; simp [eqAt, asNum?, asInt?]
    | excType t => cases hy; simp [eqAt, asNum?, asInt?]
    | str hga => cases hy with | str hgb => simp [eqAt, asNum?, asInt?, hga, hgb]
    | bytes hga hda =>
      cases hy with
      | bytes hgb hdb => simp [eqAt, asNum?, asInt?, hga, hgb, hda, hdb]
    | tuple hga hka =>
      cases hy with
      | tuple hgb hkb =>
        simp only [eqAt, asNum?, asInt?, hga, hgb]
        exact eqItems_of_keyItems h eqAt_of_key_eq hka hkb
    | obj hn hs hb ht => cases hy; exact eqAt_ref_self h hn ht

theorem bigInt_of_asNum? {a : Addr} {n : Num} (hn : h.asNum? (.ref a) = some n) :
    ∃ i, h.get? a = some (.bigInt i) := by
  simp only [asNum?, asInt?, Option.map_eq_some_iff] at hn
  obtain ⟨i, hi, -⟩ := hn
  split at hi
  · exact ⟨_, ‹_›⟩
  · cases hi

theorem eqAt_num_mismatch {fuel : Nat} {x y : Value}
    (hxy : (h.asNum? x).isSome ≠ (h.asNum? y).isSome) : h.eqAt (fuel + 1) x y = false := by
  unfold eqAt
  split
  · simp_all
  · cases x <;> cases y
    case ref.ref a b =>
      dsimp only
      split
      case h_7 =>
        rw [beq_eq_false_iff_ne]
        rintro rfl
        exact hxy rfl
      all_goals simp_all [asNum?, asInt?]
    all_goals simp_all [Value.same, asNum?, asInt?]

theorem unhashableAt_items {fuel : Nat} {a : Addr} {xs : Array Value}
    (hg : h.get? a = some (.tuple xs)) (hx : h.unhashableAt (fuel + 1) (.ref a) = none) :
    ∀ x ∈ xs.toList, h.unhashableAt fuel x = none := by
  simp only [unhashableAt, hg] at hx
  exact List.findSome?_eq_none_iff.mp hx

/-- Items equal one by one have one list of keys, given that equal values have one key when
either is hashable. -/
theorem keyItems_of_eqItems {fuel : Nat}
    (ih : ∀ {x y}, h.unhashableAt fuel x = none ∨ h.unhashableAt fuel y = none →
      h.eqAt fuel x y = true → ∃ k, h.keyAt fuel x = some k ∧ h.keyAt fuel y = some k) :
    ∀ {xs ys : List Value},
      (∀ x ∈ xs, h.unhashableAt fuel x = none) ∨ (∀ y ∈ ys, h.unhashableAt fuel y = none) →
      h.eqItems fuel xs ys = true → ∃ ks, h.keyItems fuel xs = some ks ∧ h.keyItems fuel ys = some ks
  | [], [], _, _ => ⟨[], by simp [keyItems], by simp [keyItems]⟩
  | [], _ :: _, _, he => by simp [eqItems] at he
  | _ :: _, [], _, he => by simp [eqItems] at he
  | x :: xs, y :: ys, hxy, he => by
    simp only [eqItems, Bool.and_eq_true] at he
    obtain ⟨k, hkx, hky⟩ :=
      ih (hxy.imp (· x (List.mem_cons_self ..)) (· y (List.mem_cons_self ..))) he.1
    obtain ⟨ks, hksx, hksy⟩ := keyItems_of_eqItems ih
      (hxy.imp (fun hx z hz => hx z (List.mem_cons_of_mem _ hz))
        (fun hy z hz => hy z (List.mem_cons_of_mem _ hz))) he.2
    exact ⟨k :: ks, h.keyItems_cons.mpr ⟨_, _, hkx, hksx, rfl⟩,
      h.keyItems_cons.mpr ⟨_, _, hky, hksy, rfl⟩⟩

theorem key_eq_of_eqAt : ∀ {fuel : Nat} {x y : Value},
    h.unhashableAt fuel x = none ∨ h.unhashableAt fuel y = none →
    h.eqAt fuel x y = true → ∃ k, h.keyAt fuel x = some k ∧ h.keyAt fuel y = some k
  | 0, _, _, _, he => by simp [eqAt] at he
  | fuel + 1, x, y, hxy, he => by
    have hnum : (h.asNum? x).isSome = (h.asNum? y).isSome := by
      by_contra hne
      rw [h.eqAt_num_mismatch hne] at he
      cases he
    cases hnx : h.asNum? x with
    | some a =>
      obtain ⟨b, hny⟩ := Option.isSome_iff_exists.mp (hnx ▸ hnum).symm
      unfold eqAt at he
      rw [hnx, hny] at he
      obtain ⟨q, ha, hb⟩ := Num.compare_eq_eq_iff.mp (by simpa using he)
      exact ⟨.num q, (h.keyAt_succ).mpr (.num hnx ha), (h.keyAt_succ).mpr (.num hny hb)⟩
    | none =>
      have hny : h.asNum? y = none := Option.not_isSome_iff_eq_none.mp (by simp [← hnum, hnx])
      unfold eqAt at he
      rw [hnx, hny] at he
      dsimp only at he
      cases x <;> cases y
      case none.none => exact ⟨.none, (h.keyAt_succ).mpr .none, (h.keyAt_succ).mpr .none⟩
      case excType.excType t u =>
        obtain rfl : t = u := by simpa using he
        exact ⟨_, (h.keyAt_succ).mpr (.excType t), (h.keyAt_succ).mpr (.excType t)⟩
      case ref.ref a b =>
        dsimp only at he
        split at he
        case h_1 s t hga hgb =>
          obtain rfl : s = t := by simpa using he
          exact ⟨_, (h.keyAt_succ).mpr (.str hga), (h.keyAt_succ).mpr (.str hgb)⟩
        case h_2 s t hga hgb =>
          exact ⟨_, (h.keyAt_succ).mpr (.bytes hga rfl),
            (h.keyAt_succ).mpr (.bytes hgb (by simpa using he : s.data = t.data).symm)⟩
        case h_3 xs ys hga hgb =>
          obtain ⟨ks, hkx, hky⟩ := h.keyItems_of_eqItems key_eq_of_eqAt
            (hxy.imp (h.unhashableAt_items hga) (h.unhashableAt_items hgb)) he
          exact ⟨_, (h.keyAt_succ).mpr (.tuple hga hkx), (h.keyAt_succ).mpr (.tuple hgb hky)⟩
        case h_4 | h_5 | h_6 =>
          rename_i hga hgb
          rcases hxy with hx | hy
          · simp [unhashableAt, hga] at hx
          · simp [unhashableAt, hgb] at hy
        case h_7 hs hb ht _ _ _ =>
          obtain rfl : a = b := by simpa using he
          have hk : h.keyAt (fuel + 1) (.ref a) = some (.obj a) := (h.keyAt_succ).mpr
            (.obj hnx (fun s hs' => hs s s hs' hs') (fun c hc => hb c c hc hc)
              (fun xs hxs => ht xs xs hxs hxs))
          exact ⟨_, hk, hk⟩
      all_goals simp_all [Value.same, asNum?, asInt?]

theorem hashAt_of_asNum {fuel : Nat} {v : Value} {n : Num} (hn : h.asNum? v = some n) :
    h.hashAt (fuel + 1) v = n.hash := by
  cases v with
  | bool b =>
    simp only [asNum?, asInt?, Option.map_some, Option.some.injEq] at hn
    subst hn
    cases b <;> rfl
  | int i =>
    simp only [asNum?, asInt?, Option.map_some, Option.some.injEq] at hn
    subst hn
    rfl
  | float f =>
    simp only [asNum?, Option.some.injEq] at hn
    subst hn
    rfl
  | ref a =>
    obtain ⟨i, hi⟩ := h.bigInt_of_asNum? hn
    simp only [asNum?, asInt?, hi, Option.map_some, Option.some.injEq] at hn
    subst hn
    simp [hashAt, hi, Num.hash]
  | _ => simp [asNum?, asInt?] at hn

theorem hashItems_of_keyItems {fuel : Nat}
    (ih : ∀ {x y k}, h.keyAt fuel x = some k → h.keyAt fuel y = some k →
      h.hashAt fuel x = h.hashAt fuel y) :
    ∀ {xs ys : List Value} {ks : List ValueKey}, h.keyItems fuel xs = some ks →
      h.keyItems fuel ys = some ks →
      xs.flatMap (h.hashAt fuel) = ys.flatMap (h.hashAt fuel) ∧ xs.length = ys.length
  | [], [], _, _, _ => ⟨rfl, rfl⟩
  | [], _ :: _, _, hx, hy => by
    obtain ⟨_, _, _, _, rfl⟩ := h.keyItems_cons.mp hy
    simp [keyItems] at hx
  | _ :: _, [], _, hx, hy => by
    obtain ⟨_, _, _, _, rfl⟩ := h.keyItems_cons.mp hx
    simp [keyItems] at hy
  | x :: xs, y :: ys, _, hx, hy => by
    obtain ⟨k, ks, hk, hks, rfl⟩ := h.keyItems_cons.mp hx
    obtain ⟨k', ks', hk', hks', he⟩ := h.keyItems_cons.mp hy
    obtain ⟨rfl, rfl⟩ := List.cons.inj he
    obtain ⟨hf, hl⟩ := hashItems_of_keyItems ih hks hks'
    simp only [List.flatMap_cons, List.length_cons, ih hk hk', hf, hl, and_self]

theorem hashAt_eq_of_key : ∀ {fuel : Nat} {x y : Value} {k : ValueKey},
    h.keyAt fuel x = some k → h.keyAt fuel y = some k → h.hashAt fuel x = h.hashAt fuel y
  | 0, _, _, _, hx, _ => by simp [keyAt] at hx
  | fuel + 1, x, y, k, hx, hy => by
    rw [keyAt_succ] at hx hy
    cases hx with
    | num hnx ha =>
      cases hy with
      | num hny hb =>
        rw [h.hashAt_of_asNum hnx, h.hashAt_of_asNum hny]
        exact Num.hash_eq_of_key_eq ha hb
    | none => cases hy; rfl
    | excType t => cases hy; rfl
    | str hga => cases hy with | str hgb => simp [hashAt, hga, hgb]
    | bytes hga hda =>
      cases hy with
      | bytes hgb hdb => simp [hashAt, hga, hgb, ByteArray.size, hda, hdb]
    | tuple hga hka =>
      cases hy with
      | tuple hgb hkb =>
        obtain ⟨hf, hl⟩ := h.hashItems_of_keyItems hashAt_eq_of_key hka hkb
        simp only [hashAt, hga, hgb, hf, Array.size, hl]
    | obj hn hs hb ht => cases hy; rfl

/-! ### Dict keys and set members -/

variable {h}

theorem unhashableAt_of_check {v : Value} (hv : h.checkHashable v = .ok ()) :
    h.unhashableAt eqDepth v = none := by
  unfold checkHashable at hv
  split at hv
  · cases hv
  · assumption

theorem key_eq_of_eq {x y : Value}
    (hxy : h.checkHashable x = .ok () ∨ h.checkHashable y = .ok ()) (he : h.eq x y = true) :
    ∃ k, h.keyAt eqDepth x = some k ∧ h.keyAt eqDepth y = some k :=
  h.key_eq_of_eqAt (hxy.imp unhashableAt_of_check unhashableAt_of_check) he

theorem eq_symm_of_hashable {x y : Value}
    (hxy : h.checkHashable x = .ok () ∨ h.checkHashable y = .ok ()) (he : h.eq x y = true) :
    h.eq y x = true := by
  obtain ⟨k, hkx, hky⟩ := key_eq_of_eq hxy he
  exact h.eqAt_of_key_eq hky hkx

theorem eq_congr_right {k k' : Value} (hk : h.checkHashable k = .ok ())
    (hk' : h.checkHashable k' = .ok ()) (he : h.eq k k' = true) (x : Value) :
    h.eq x k = h.eq x k' := by
  obtain ⟨q, hkq, hk'q⟩ := key_eq_of_eq (.inl hk) he
  apply Bool.eq_iff_iff.mpr
  constructor
  · intro hx
    obtain ⟨q', hxq', hkq'⟩ := key_eq_of_eq (.inr hk) hx
    rw [hkq, Option.some.injEq] at hkq'
    subst hkq'
    exact h.eqAt_of_key_eq hxq' hk'q
  · intro hx
    obtain ⟨q', hxq', hkq'⟩ := key_eq_of_eq (.inr hk') hx
    rw [hk'q, Option.some.injEq] at hkq'
    subst hkq'
    exact h.eqAt_of_key_eq hxq' hkq

/-- No two of the values are equal, either way round. -/
def KeysApart (h : Heap) (ks : List Value) : Prop :=
  ks.Pairwise fun a b => h.eq a b = false ∧ h.eq b a = false

theorem apart_of_not_eq {ks : List Value} {k : Value} (hk : h.checkHashable k = .ok ())
    (hne : ∀ a ∈ ks, h.eq a k = false) : ∀ a ∈ ks, h.eq a k = false ∧ h.eq k a = false := by
  intro a ha
  refine ⟨hne a ha, ?_⟩
  cases hka : h.eq k a
  · rfl
  · have hak := hne a ha
    rw [eq_symm_of_hashable (.inl hk) hka] at hak
    cases hak

/-- Binding a key leaves the keys as they were when an equal one is there, and adds it at the
end otherwise. -/
theorem insertKey_keys (es : Array (Value × Value)) (k v : Value) :
    (h.insertKey es k v).toList.map Prod.fst =
      if (h.findKey es k).isSome then es.toList.map Prod.fst
      else es.toList.map Prod.fst ++ [k] := by
  unfold insertKey
  cases h.findKey es k with
  | some i =>
    simp only [Option.isSome_some, ↓reduceIte]
    apply List.ext_getElem (by simp)
    intro j _ _
    simp only [Array.toList_modify, List.getElem_map, List.getElem_modify]
    split <;> rfl
  | none => simp

theorem insertKey_keysApart {es : Array (Value × Value)} {k v : Value}
    (hk : h.checkHashable k = .ok ()) (hes : h.KeysApart (es.toList.map Prod.fst)) :
    h.KeysApart ((h.insertKey es k v).toList.map Prod.fst) := by
  rw [insertKey_keys]
  cases hf : h.findKey es k with
  | some i => exact hes
  | none =>
    simp only [Option.isSome_none, Bool.false_eq_true, ↓reduceIte, KeysApart,
      List.pairwise_append, List.pairwise_singleton, List.mem_singleton, forall_eq, true_and]
    refine ⟨hes, apart_of_not_eq hk fun a ha => ?_⟩
    obtain ⟨e, he, rfl⟩ := List.mem_map.mp ha
    exact Array.findIdx?_eq_none_iff.mp hf e (Array.mem_toList_iff.mp he)

theorem insertMember_apart {xs : Array Value} {v : Value} (hv : h.checkHashable v = .ok ())
    (hxs : h.KeysApart xs.toList) : h.KeysApart (h.insertMember xs v).toList := by
  unfold insertMember
  split
  · exact hxs
  · rename_i hany
    simp only [Array.toList_push, KeysApart, List.pairwise_append, List.pairwise_singleton,
      List.mem_singleton, forall_eq, true_and]
    have hall : xs.toList.any (fun y => h.eq y v) = false := by
      rw [Array.any_toList]
      simpa using hany
    refine ⟨hxs, apart_of_not_eq hv fun a ha => ?_⟩
    simpa using List.any_eq_false.mp hall a ha

/-- A dict finds the same entry by any key equal to a hashable one, and a set the same
member. -/
theorem find_congr {k k' : Value} (hk : h.checkHashable k = .ok ())
    (hk' : h.checkHashable k' = .ok ()) (he : h.eq k k' = true) (es : Array (Value × Value))
    (xs : Array Value) :
    h.findKey es k = h.findKey es k' ∧ h.lookup es k = h.lookup es k' ∧
      xs.any (h.eq · k) = xs.any (h.eq · k') := by
  have hp : (h.eq · k) = (h.eq · k') := funext (eq_congr_right hk hk' he)
  have hq : (fun e : Value × Value => h.eq e.1 k) = fun e => h.eq e.1 k' :=
    funext fun e => eq_congr_right hk hk' he e.1
  simp only [findKey, lookup, hp, hq, and_self]

theorem hashValue_eq_of_eq {x y : Value}
    (hxy : h.checkHashable x = .ok () ∨ h.checkHashable y = .ok ()) (he : h.eq x y = true) :
    h.hashValue x = h.hashValue y := by
  obtain ⟨k, hkx, hky⟩ := key_eq_of_eq hxy he
  exact h.hashAt_eq_of_key hkx hky

end Heap

/-- Hashing agrees with equality: two equal dict keys or set members hash alike, so a dict or
set found by hashing finds what the search by equality finds.  Binding a key or adding a member
keeps the keys apart, and a lookup by any key equal to one finds the same entry. -/
theorem hashing_agrees_with_equality (h : Heap) :
    (∀ x y, h.checkHashable x = .ok () → h.checkHashable y = .ok () → h.eq x y = true →
      h.hashValue x = h.hashValue y) ∧
    (∀ es k v, h.checkHashable k = .ok () → h.KeysApart (es.toList.map Prod.fst) →
      h.KeysApart ((h.insertKey es k v).toList.map Prod.fst)) ∧
    (∀ xs v, h.checkHashable v = .ok () → h.KeysApart xs.toList →
      h.KeysApart (h.insertMember xs v).toList) ∧
    (∀ k k', h.checkHashable k = .ok () → h.checkHashable k' = .ok () → h.eq k k' = true →
      ∀ (es : Array (Value × Value)) (xs : Array Value), h.findKey es k = h.findKey es k' ∧ h.lookup es k = h.lookup es k' ∧
        xs.any (h.eq · k) = xs.any (h.eq · k')) :=
  ⟨fun _ _ hx _ he => Heap.hashValue_eq_of_eq (.inl hx) he,
    fun _ _ _ hk hes => Heap.insertKey_keysApart hk hes,
    fun _ _ hv hxs => Heap.insertMember_apart hv hxs,
    fun _ _ hk hk' he => Heap.find_congr hk hk' he⟩

/-- `True` and `1` are one key, and hash alike. -/
theorem true_and_one_hash_alike :
    (default : Heap).checkHashable (.bool true) = .ok () ∧
      (default : Heap).checkHashable (.int 1) = .ok () ∧
      (default : Heap).eq (.bool true) (.int 1) = true ∧
      (default : Heap).hashValue (.bool true) = (default : Heap).hashValue (.int 1) :=
  have h1 : (default : Heap).checkHashable (.bool true) = .ok () := rfl
  have h2 : (default : Heap).checkHashable (.int 1) = .ok () := rfl
  have he : (default : Heap).eq (.bool true) (.int 1) = true := by
    simp [Heap.eq, Heap.eqDepth, Heap.eqAt, Heap.asNum?, Heap.asInt?, Num.compare]
  ⟨h1, h2, he, (hashing_agrees_with_equality default).1 _ _ h1 h2 he⟩

end StackVm
