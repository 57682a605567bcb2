import StackVm.Proofs.Value.Hash
import StackVm.Proofs.Engine.Store

/-! Changes confined to containers.  Binding an item of a dict changes one dict in place, and
building a set places a new set; neither touches a number, a string, a byte string or a tuple.
Such a change (`Heap.ChangesContainers`) keeps the key of every value, since a key sees a list,
a dict, a set or a missing object alike, as a bare address.  A value that is hashable after the
change was hashable before it, and was equal to the same values: equality with a hashable value
is having its key.  Equality with a hashable value also passes hashability on. -/

namespace StackVm

namespace Obj

/-- Whether an object is a list, a dict or a set: a container that changes in place. -/
def isContainer : Obj → Bool
  | .list _ | .dict _ | .set _ => true
  | _ => false

end Obj

namespace Heap

/-- `h'` differs from `h` only in containers: an address whose object changed holds a list, a
dict or a set in `h'`, and held one, or nothing, in `h`. -/
def ChangesContainers (h h' : Heap) : Prop :=
  ∀ b, h'.get? b ≠ h.get? b →
    (h'.get? b).any Obj.isContainer = true ∧ (h.get? b).all Obj.isContainer = true

variable {h h' : Heap}

theorem changesContainers_modify_dict {a : Addr} {es : Array (Value × Value)}
    (hd : h.get? a = some (.dict es)) (f : Array (Value × Value) → Array (Value × Value)) :
    h.ChangesContainers (h.modify a (Obj.mapDict f)) ∧
      (h.modify a (Obj.mapDict f)).ChangesContainers h := by
  have hb : ∀ b, (h.modify a (Obj.mapDict f)).get? b ≠ h.get? b →
      b = a ∧ (h.modify a (Obj.mapDict f)).get? b = some (.dict (f es)) := by
    intro b hne
    rw [get?_modify_eq] at hne ⊢
    by_cases hab : a = b
    · subst hab
      simp [hd, Obj.mapDict]
    · rw [if_neg hab] at hne
      exact absurd rfl hne
  constructor
  · intro b hne
    obtain ⟨rfl, hb'⟩ := hb b hne
    simp [hb', hd, Obj.isContainer]
  · intro b hne
    obtain ⟨rfl, hb'⟩ := hb b (Ne.symm hne)
    simp [hb', hd, Obj.isContainer]

theorem changesContainers_alloc {o : Obj} (ho : o.isContainer = true) :
    h.ChangesContainers (h.alloc o).1 := by
  intro b hne
  rw [get?_alloc_eq] at hne ⊢
  by_cases hb : b = h.objs.size
  · subst hb
    have hnone : h.get? h.objs.size = none := by simp [get?]
    simp [ho, hnone]
  · rw [if_neg hb] at hne
    exact absurd rfl hne

theorem ChangesContainers.get?_eq (hc : h.ChangesContainers h') {b : Addr} {o : Obj}
    (ho : o.isContainer = false) : h'.get? b = some o ↔ h.get? b = some o := by
  by_cases heq : h'.get? b = h.get? b
  · rw [heq]
  · obtain ⟨h₁, h₂⟩ := hc b heq
    constructor
    · intro hb
      rw [hb] at h₁
      simp [ho] at h₁
    · intro hb
      rw [hb] at h₂
      simp [ho] at h₂

theorem ChangesContainers.changed (hc : h.ChangesContainers h') {b : Addr}
    (hne : h'.get? b ≠ h.get? b) :
    (∃ o', h'.get? b = some o' ∧ o'.isContainer = true) ∧
      ∀ o, h.get? b = some o → o.isContainer = true := by
  obtain ⟨h₁, h₂⟩ := hc b hne
  constructor
  · cases hb : h'.get? b with
    | none => simp [hb] at h₁
    | some o' => exact ⟨o', rfl, by simpa [hb] using h₁⟩
  · intro o ho
    simpa [ho] using h₂

theorem ChangesContainers.asNum? (hc : h.ChangesContainers h') (v : Value) :
    h'.asNum? v = h.asNum? v := by
  cases v with
  | ref b =>
    simp only [Heap.asNum?, asInt?]
    congr 1
    by_cases heq : h'.get? b = h.get? b
    · rw [heq]
    · obtain ⟨⟨o', ho', hc'⟩, hold⟩ := hc.changed heq
      rw [ho']
      cases hb : h.get? b with
      | none => cases o' <;> simp_all [Obj.isContainer]
      | some o =>
        have := hold o hb
        cases o' <;> cases o <;> simp_all [Obj.isContainer]
  | _ => rfl

mutual

theorem ChangesContainers.keyAt (hc : h.ChangesContainers h') :
    ∀ (fuel : Nat) (v : Value), h'.keyAt fuel v = h.keyAt fuel v
  | 0, _ => by simp [Heap.keyAt]
  | fuel + 1, v => by
    unfold Heap.keyAt
    rw [hc.asNum? v]
    cases h.asNum? v with
    | some n => rfl
    | none =>
      cases v with
      | ref b =>
        dsimp only
        by_cases heq : h'.get? b = h.get? b
        · rw [heq]
          split <;> (try rw [hc.keyItems]) <;> rfl
        · obtain ⟨⟨o', ho', hc'⟩, hold⟩ := hc.changed heq
          rw [ho']
          cases hb : h.get? b with
          | none => cases o' <;> simp_all [Obj.isContainer]
          | some o =>
            have := hold o hb
            cases o' <;> cases o <;> simp_all [Obj.isContainer]
      | _ => rfl

theorem ChangesContainers.keyItems (hc : h.ChangesContainers h') (fuel : Nat) :
    ∀ xs : List Value, h'.keyItems fuel xs = h.keyItems fuel xs
  | [] => by simp [Heap.keyItems]
  | x :: xs => by
    simp only [Heap.keyItems, hc.keyAt fuel x, hc.keyItems fuel xs]

end

theorem ChangesContainers.unhashableAt (hc : h.ChangesContainers h') :
    ∀ (fuel : Nat) (v : Value), h'.unhashableAt fuel v = none → h.unhashableAt fuel v = none
  | 0, _, _ => by simp [Heap.unhashableAt]
  | fuel + 1, v, hv => by
    cases v with
    | ref b =>
      cases hb' : h'.get? b with
      | none =>
        have hb : h.get? b = none := by
          by_contra hne
          obtain ⟨⟨o', ho', -⟩, -⟩ := hc.changed (by rw [hb']; exact Ne.symm hne)
          rw [hb'] at ho'
          cases ho'
        simp [Heap.unhashableAt, hb]
      | some o' =>
        by_cases hcont : o'.isContainer = true
        · cases o' <;> simp_all [Obj.isContainer, Heap.unhashableAt]
        · have hb := (hc.get?_eq (Bool.eq_false_iff.mpr hcont)).mp hb'
          cases o' with
          | tuple xs =>
            simp only [Heap.unhashableAt, hb', hb] at hv ⊢
            exact List.findSome?_eq_none_iff.mpr fun x hx =>
              hc.unhashableAt fuel x (List.findSome?_eq_none_iff.mp hv x hx)
          | _ => simp_all [Heap.unhashableAt, Obj.isContainer]
    | _ => simp [Heap.unhashableAt]

theorem ChangesContainers.checkHashable (hc : h.ChangesContainers h') {v : Value}
    (hv : h'.checkHashable v = .ok ()) : h.checkHashable v = .ok () := by
  rw [Heap.checkHashable, hc.unhashableAt eqDepth v (unhashableAt_of_check hv)]

theorem eq_true_iff_key {x y : Value} (hy : h.checkHashable y = .ok ()) :
    h.eq x y = true ↔ ∃ k, h.keyAt eqDepth x = some k ∧ h.keyAt eqDepth y = some k :=
  ⟨key_eq_of_eq (.inr hy), fun ⟨_, hx, hy⟩ => h.eqAt_of_key_eq hx hy⟩

/-- Across a change confined to containers, a value hashable after it is equal to the same
values before and after. -/
theorem ChangesContainers.eq (hc : h.ChangesContainers h') {y : Value}
    (hy : h'.checkHashable y = .ok ()) (x : Value) : h'.eq x y = h.eq x y := by
  apply Bool.eq_iff_iff.mpr
  rw [eq_true_iff_key hy, eq_true_iff_key (hc.checkHashable hy), hc.keyAt, hc.keyAt]

theorem unhashableAt_of_asNum {fuel : Nat} {v : Value} {n : Num} (hn : h.asNum? v = some n) :
    h.unhashableAt fuel v = none := by
  cases fuel with
  | zero => rfl
  | succ fuel =>
    cases v with
    | ref a =>
      obtain ⟨i, hi⟩ := h.bigInt_of_asNum? hn
      simp [unhashableAt, hi]
    | _ => rfl

/-- Items equal one by one to hashable items are hashable, given that values equal to hashable
values are. -/
theorem unhashableItems_of_eqItems {fuel : Nat}
    (ih : ∀ {x y}, h.eqAt fuel x y = true → h.unhashableAt fuel y = none →
      h.unhashableAt fuel x = none) :
    ∀ {xs ys : List Value}, h.eqItems fuel xs ys = true →
      (∀ y ∈ ys, h.unhashableAt fuel y = none) → ∀ x ∈ xs, h.unhashableAt fuel x = none
  | [], _, _, _ => by simp
  | _ :: _, [], he, _ => by simp [eqItems] at he
  | x :: xs, y :: ys, he, hys => by
    simp only [eqItems, Bool.and_eq_true] at he
    intro z hz
    rcases List.mem_cons.mp hz with rfl | hz
    · exact ih he.1 (hys y (List.mem_cons_self ..))
    · exact unhashableItems_of_eqItems ih he.2 (fun w hw => hys w (List.mem_cons_of_mem _ hw)) z hz

theorem unhashableAt_of_eqAt : ∀ {fuel : Nat} {x y : Value}, h.eqAt fuel x y = true →
    h.unhashableAt fuel y = none → h.unhashableAt fuel x = none
  | 0, _, _, _, _ => rfl
  | fuel + 1, x, y, he, hy => by
    cases hnx : h.asNum? x with
    | some n => exact unhashableAt_of_asNum hnx
    | none =>
      have hny : h.asNum? y = none := by
        cases hn : h.asNum? y with
        | none => rfl
        | some n =>
          rw [h.eqAt_num_mismatch (by simp [hnx, hn])] at he
          cases he
      cases x with
      | ref a =>
        cases y with
        | ref b =>
          unfold eqAt at he
          rw [hnx, hny] at he
          dsimp only at he
          split at he
          case h_1 hga _ => simp [unhashableAt, hga]
          case h_2 hga _ => simp [unhashableAt, hga]
          case h_3 xs ys hga hgb =>
            simp only [unhashableAt, hga, hgb] at hy ⊢
            exact List.findSome?_eq_none_iff.mpr (h.unhashableItems_of_eqItems unhashableAt_of_eqAt he
              (List.findSome?_eq_none_iff.mp hy))
          case h_4 hgb | h_5 hgb | h_6 hgb => simp [unhashableAt, hgb] at hy
          case h_7 =>
            obtain rfl : a = b := by simpa using he
            exact hy
        | _ => simp [eqAt, hnx, hny, Value.same] at he
      | _ => rfl

theorem checkHashable_of_eq {x y : Value} (he : h.eq x y = true)
    (hy : h.checkHashable y = .ok ()) : h.checkHashable x = .ok () := by
  rw [checkHashable, h.unhashableAt_of_eqAt he (unhashableAt_of_check hy)]

end Heap

end StackVm
