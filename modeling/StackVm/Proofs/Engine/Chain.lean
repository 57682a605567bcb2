import StackVm.Proofs.Engine.Store
import StackVm.Interp.Chain

/-! The exception chain.  The context and cause links of the exceptions in the store form a
directed graph.  The search `Vm.chainReaches` is exact on every store, cyclic or not: its
fuel, twice the size of the store and four more, outlasts the search, which visits an address
at most once and pushes at most two links for each.  The graph stays acyclic under every change
the engine makes to it: links that are dropped, a new exception whose links lead to old ones,
and one new link `u → v` made only after the search found that `v` does not lead back to `u`. -/

namespace StackVm

/-- The links an object holds: an exception's context, then its cause. -/
def Obj.links : Obj → List Addr
  | .exception e => e.context.toList ++ e.cause.toList
  | _ => []

namespace Heap

/-- The exception at `a` links to `b`: `b` is its context or its cause. -/
def Link (h : Heap) (a b : Addr) : Prop := b ∈ Vm.links h a

/-- The address holds an exception. -/
def IsExc (h : Heap) (a : Addr) : Prop := ∃ e, h.get? a = some (.exception e)

/-- No exception reaches itself through context and cause links. -/
def Acyclic (h : Heap) : Prop := ∀ a, ¬ Relation.TransGen h.Link a a

/-- The links of every exception lead to exceptions, and the chain graph is acyclic. -/
structure ChainSound (h : Heap) : Prop where
  links : ∀ a b, h.Link a b → h.IsExc b
  acyclic : h.Acyclic

theorem IsExc.lt {h : Heap} {a : Addr} (ha : h.IsExc a) : a < h.objs.size :=
  let ⟨_, he⟩ := ha
  lt_of_get? he

theorem Evolves.isExc {h h' : Heap} (he : h.Evolves h') {a : Addr} (ha : h.IsExc a) : h'.IsExc a :=
  let ⟨_, hx⟩ := ha
  he.exception hx

end Heap

namespace Vm

variable {h h' : Heap} {a b : Addr}

theorem links_of_exc {e : Exc} (hx : h.get? a = some (.exception e)) :
    links h a = e.context.toList ++ e.cause.toList := by
  simp [links, hx]

theorem links_of_not_exc (hx : ¬ h.IsExc a) : links h a = [] := by
  unfold links
  split
  · exact absurd ⟨_, ‹_›⟩ hx
  · rfl

theorem links_congr (hx : ∀ e, h'.get? a = some (.exception e) ↔ h.get? a = some (.exception e)) :
    links h' a = links h a := by
  by_cases he : h.IsExc a
  · obtain ⟨e, he⟩ := he
    rw [links_of_exc he, links_of_exc ((hx e).2 he)]
  · rw [links_of_not_exc he, links_of_not_exc fun ⟨e, he'⟩ => he ⟨e, (hx e).1 he'⟩]

theorem length_links_le (h : Heap) (a : Addr) : (links h a).length ≤ 2 := by
  by_cases he : h.IsExc a
  · obtain ⟨e, he⟩ := he
    rw [links_of_exc he, List.length_append]
    cases e.context <;> cases e.cause <;> simp
  · rw [links_of_not_exc he]
    simp

theorem lt_of_links_ne_nil (hl : links h a ≠ []) : a < h.objs.size :=
  Heap.IsExc.lt (by_contra fun he => hl (links_of_not_exc he))

theorem links_of_get? {o : Obj} (ho : h.get? a = some o) : links h a = o.links := by
  unfold links
  rw [ho]
  cases o <;> rfl

theorem links_of_get?_none (ho : h.get? a = none) : links h a = [] := by
  unfold links
  rw [ho]

theorem links_modify_ne {F : Obj → Obj} (hne : a ≠ b) : links (h.modify a F) b = links h b :=
  links_congr fun _ => by rw [Heap.get?_modify_eq, if_neg hne]

theorem links_modify_self {F : Obj → Obj} {o : Obj} (ho : h.get? a = some o) :
    links (h.modify a F) a = (F o).links := by
  rw [links_of_get? (o := F o)]
  rw [Heap.get?_modify_eq, if_pos rfl, ho]
  rfl

theorem links_alloc_old {o : Obj} (hb : b ≠ h.objs.size) : links (h.alloc o).1 b = links h b :=
  links_congr fun _ => by rw [Heap.get?_alloc_eq, if_neg hb]

theorem links_alloc_new (o : Obj) : links (h.alloc o).1 h.objs.size = o.links :=
  links_of_get? (by rw [Heap.get?_alloc_eq, if_pos rfl])

/-! ### The search -/

theorem reachesFrom_sound {t : Addr} {fuel : Nat} {pending seen : List Addr}
    (hr : reachesFrom h t fuel pending seen = true) :
    ∃ a ∈ pending, Relation.ReflTransGen h.Link a t := by
  induction fuel generalizing pending seen with
  | zero => simp [reachesFrom] at hr
  | succ fuel ih =>
    cases pending with
    | nil => simp [reachesFrom] at hr
    | cons a rest =>
      rw [reachesFrom.eq_3] at hr
      by_cases hat : a = t
      · exact ⟨a, List.mem_cons_self, hat ▸ .refl⟩
      · rw [if_neg (by simpa using hat)] at hr
        split at hr
        · obtain ⟨b, hb, hbt⟩ := ih hr
          exact ⟨b, List.mem_cons_of_mem a hb, hbt⟩
        · obtain ⟨b, hb, hbt⟩ := ih hr
          rcases List.mem_append.1 hb with hb | hb
          · exact ⟨a, List.mem_cons_self, .head hb hbt⟩
          · exact ⟨b, List.mem_cons_of_mem a hb, hbt⟩

/-- The addresses with links that the search has not visited yet. -/
def unvisited (h : Heap) (seen : List Addr) : Finset Addr :=
  (Finset.range h.objs.size).filter fun a => a ∉ seen ∧ links h a ≠ []

theorem card_unvisited_le (h : Heap) (seen : List Addr) :
    (unvisited h seen).card ≤ h.objs.size :=
  (Finset.card_filter_le _ _).trans (Finset.card_range _).le

theorem unvisited_cons_le (h : Heap) (a : Addr) (seen : List Addr) :
    (unvisited h (a :: seen)).card ≤ (unvisited h seen).card :=
  Finset.card_le_card fun x hx => by
    simp only [unvisited, Finset.mem_filter, List.mem_cons, not_or] at hx ⊢
    exact ⟨hx.1, hx.2.1.2, hx.2.2⟩

theorem unvisited_cons_of_links (ha : a ∉ seen) (hl : links h a ≠ []) :
    (unvisited h (a :: seen)).card + 1 = (unvisited h seen).card := by
  have hmem : a ∈ unvisited h seen := by
    simp only [unvisited, Finset.mem_filter, Finset.mem_range]
    exact ⟨lt_of_links_ne_nil hl, ha, hl⟩
  have herase : unvisited h (a :: seen) = (unvisited h seen).erase a := by
    ext x
    simp only [unvisited, Finset.mem_filter, Finset.mem_erase, List.mem_cons, not_or]
    constructor
    · rintro ⟨hx, ⟨hxa, hxs⟩, hl⟩
      exact ⟨hxa, hx, hxs, hl⟩
    · rintro ⟨hxa, hx, hxs, hl⟩
      exact ⟨hx, ⟨hxa, hxs⟩, hl⟩
  rw [herase, Finset.card_erase_of_mem hmem]
  have := Finset.card_pos.2 ⟨a, hmem⟩
  omega

/-- A state of the search from which the target is reachable: each visited address has its
links visited or pending, the target is not visited, and a visited or pending address reaches
the target. -/
structure SearchInv (h : Heap) (t : Addr) (pending seen : List Addr) : Prop where
  closed : ∀ s ∈ seen, ∀ b ∈ links h s, b ∈ seen ∨ b ∈ pending
  fresh : t ∉ seen
  reach : ∃ b, (b ∈ seen ∨ b ∈ pending) ∧ Relation.ReflTransGen h.Link b t

theorem SearchInv.pending {t : Addr} {pending seen : List Addr} (hi : SearchInv h t pending seen) :
    ∃ b ∈ pending, Relation.ReflTransGen h.Link b t := by
  obtain ⟨b, hb, hbt⟩ := hi.reach
  induction hbt using Relation.ReflTransGen.head_induction_on with
  | refl => exact ⟨t, hb.resolve_left hi.fresh, .refl⟩
  | head hbc hct ih =>
    rcases hb with hb | hb
    · exact ih (hi.closed _ hb _ hbc)
    · exact ⟨_, hb, .head hbc hct⟩

theorem reachesFrom_complete {t : Addr} :
    ∀ (fuel : Nat) (pending seen : List Addr), SearchInv h t pending seen →
      pending.length + 2 * (unvisited h seen).card < fuel →
      reachesFrom h t fuel pending seen = true
  | 0, _, _, _, hlt => absurd hlt (Nat.not_lt_zero _)
  | fuel + 1, pending, seen, hi, hlt => by
    obtain ⟨_, hpend, _⟩ := hi.pending
    cases pending with
    | nil => cases hpend
    | cons a rest =>
      rw [reachesFrom.eq_3]
      by_cases hat : a = t
      · simp [hat]
      rw [if_neg (by simpa using hat)]
      simp only [List.length_cons] at hlt
      split
      · have has : a ∈ seen := by simpa using ‹seen.contains a = true›
        refine reachesFrom_complete fuel rest seen ⟨fun s hs b hb => ?_, hi.fresh, ?_⟩ (by omega)
        · rcases hi.closed s hs b hb with h | h
          · exact .inl h
          · rcases List.mem_cons.1 h with rfl | h
            · exact .inl has
            · exact .inr h
        · obtain ⟨b, hb, hbt⟩ := hi.reach
          refine ⟨b, ?_, hbt⟩
          rcases hb with h | h
          · exact .inl h
          · rcases List.mem_cons.1 h with rfl | h
            · exact .inl has
            · exact .inr h
      · have has : a ∉ seen := by simpa using ‹¬ seen.contains a = true›
        have hmeasure : (links h a ++ rest).length + 2 * (unvisited h (a :: seen)).card < fuel := by
          rw [List.length_append]
          by_cases hl : links h a = []
          · have := unvisited_cons_le h a seen
            rw [hl]
            simp only [List.length_nil]
            omega
          · have := unvisited_cons_of_links has hl
            have := length_links_le h a
            omega
        refine reachesFrom_complete fuel _ _ ⟨fun s hs b hb => ?_, ?_, ?_⟩ hmeasure
        · rcases List.mem_cons.1 hs with rfl | hs
          · exact .inr (List.mem_append_left _ hb)
          · rcases hi.closed s hs b hb with h | h
            · exact .inl (List.mem_cons_of_mem _ h)
            · rcases List.mem_cons.1 h with rfl | h
              · exact .inl List.mem_cons_self
              · exact .inr (List.mem_append_right _ h)
        · simp only [List.mem_cons, not_or]
          exact ⟨Ne.symm hat, hi.fresh⟩
        · obtain ⟨b, hb, hbt⟩ := hi.reach
          refine ⟨b, ?_, hbt⟩
          rcases hb with h | h
          · exact .inl (List.mem_cons_of_mem _ h)
          · rcases List.mem_cons.1 h with rfl | h
            · exact .inl List.mem_cons_self
            · exact .inr (List.mem_append_right _ h)

/-- The search answers exactly whether one exception reaches another through one or more
links, on every store. -/
theorem chainReaches_iff (h : Heap) (a b : Addr) :
    chainReaches h a b = true ↔ Relation.TransGen h.Link a b := by
  constructor
  · intro hr
    obtain ⟨c, hc, hcb⟩ := reachesFrom_sound hr
    exact .head' hc hcb
  · intro hab
    obtain ⟨c, hac, hcb⟩ := Relation.TransGen.head'_iff.1 hab
    apply reachesFrom_complete
    · exact ⟨fun _ hs => absurd hs List.not_mem_nil, List.not_mem_nil, c, .inr hac, hcb⟩
    · have := length_links_le h a
      have := card_unvisited_le h []
      omega

end Vm

namespace Heap

variable {h h' : Heap}

/-- A path in a graph with one edge `u → v` added either avoids it or passes it, and then,
since `v` does not lead back to `u`, passes it only once. -/
theorem transGen_of_added {α : Type} {R R' : α → α → Prop} {u v : α}
    (hsub : ∀ a b, R' a b → R a b ∨ (a = u ∧ b = v)) (hvu : ¬ Relation.ReflTransGen R v u)
    {x y : α} (hxy : Relation.TransGen R' x y) :
    Relation.TransGen R x y ∨ (Relation.ReflTransGen R x u ∧ Relation.ReflTransGen R v y) := by
  induction hxy with
  | single hr =>
    rcases hsub _ _ hr with hr | ⟨rfl, rfl⟩
    · exact .inl (.single hr)
    · exact .inr ⟨.refl, .refl⟩
  | tail _ hyz ih =>
    rcases hsub _ _ hyz with hyz | ⟨rfl, rfl⟩
    · rcases ih with h | ⟨hxu, hvy⟩
      · exact .inl (h.tail hyz)
      · exact .inr ⟨hxu, hvy.tail hyz⟩
    · rcases ih with h | ⟨_, hvy⟩
      · exact .inr ⟨h.to_reflTransGen, .refl⟩
      · exact absurd hvy hvu

theorem transGen_of_entry_free {α : Type} {R R' : α → α → Prop} {w : α}
    (hsub : ∀ a b, R' a b → b ≠ w ∧ (a ≠ w → R a b)) {x y : α} (hxy : Relation.TransGen R' x y) :
    y ≠ w ∧ (x ≠ w → Relation.TransGen R x y) := by
  induction hxy with
  | single hr => exact ⟨(hsub _ _ hr).1, fun hx => .single ((hsub _ _ hr).2 hx)⟩
  | tail _ hyz ih =>
    exact ⟨(hsub _ _ hyz).1, fun hx => (ih.2 hx).tail ((hsub _ _ hyz).2 ih.1)⟩

theorem Acyclic.mono (hac : h.Acyclic) (hsub : ∀ a b, h'.Link a b → h.Link a b) : h'.Acyclic :=
  fun a ha => hac a (Relation.TransGen.mono (fun x y => hsub x y) a a ha)

theorem Acyclic.of_added (hac : h.Acyclic) {u v : Addr}
    (hsub : ∀ a b, h'.Link a b → h.Link a b ∨ (a = u ∧ b = v))
    (hvu : ¬ Relation.ReflTransGen h.Link v u) : h'.Acyclic := by
  intro x hx
  rcases transGen_of_added hsub hvu hx with h | ⟨hxu, hvx⟩
  · exact hac x h
  · exact hvu (hvx.trans hxu)

theorem Acyclic.of_entry_free (hac : h.Acyclic) {w : Addr}
    (hsub : ∀ a b, h'.Link a b → b ≠ w ∧ (a ≠ w → h.Link a b)) : h'.Acyclic := by
  intro x hx
  obtain ⟨hxw, hr⟩ := transGen_of_entry_free hsub hx
  exact hac x (hr hxw)

namespace ChainSound

theorem of_links_sub (hc : h.ChainSound) (he : h.Evolves h')
    (hl : ∀ a, Vm.links h' a ⊆ Vm.links h a) : h'.ChainSound :=
  ⟨fun a b hab => he.isExc (hc.links a b (hl a hab)), hc.acyclic.mono fun a _ hab => hl a hab⟩

theorem modify_sub (hc : h.ChainSound) {a : Addr} {F : Obj → Obj}
    (he : h.Evolves (h.modify a F)) (hF : ∀ o, h.get? a = some o → (F o).links ⊆ o.links) :
    (h.modify a F).ChainSound := by
  refine hc.of_links_sub he fun b => ?_
  by_cases hab : a = b
  · subst hab
    cases ho : h.get? a with
    | none => rw [Vm.links_of_get?_none (by rw [Heap.get?_modify_eq, if_pos rfl, ho]; rfl)]; simp
    | some o => rw [Vm.links_modify_self ho, Vm.links_of_get? ho]; exact hF o ho
  · rw [Vm.links_modify_ne hab]
    exact List.Subset.refl _

/-- Linking the object at `a` to an exception `v` that does not lead back to `a` keeps the
chain sound. -/
theorem modify_add (hc : h.ChainSound) {a v : Addr} {F : Obj → Obj}
    (he : h.Evolves (h.modify a F))
    (hF : ∀ o, h.get? a = some o → ∀ b ∈ (F o).links, b ∈ o.links ∨ b = v)
    (hv : h.IsExc v) (hva : ¬ Relation.ReflTransGen h.Link v a) : (h.modify a F).ChainSound := by
  have hsub : ∀ x y, (h.modify a F).Link x y → h.Link x y ∨ (x = a ∧ y = v) := by
    intro x y hxy
    by_cases hax : a = x
    · subst hax
      cases ho : h.get? a with
      | none =>
        rw [Link, Vm.links_of_get?_none (by rw [Heap.get?_modify_eq, if_pos rfl, ho]; rfl)] at hxy
        cases hxy
      | some o =>
        rw [Link, Vm.links_modify_self ho] at hxy
        rcases hF o ho y hxy with hy | rfl
        · exact .inl (by rw [Link, Vm.links_of_get? ho]; exact hy)
        · exact .inr ⟨rfl, rfl⟩
    · rw [Link, Vm.links_modify_ne hax] at hxy
      exact .inl hxy
  refine ⟨fun x y hxy => ?_, hc.acyclic.of_added hsub hva⟩
  rcases hsub x y hxy with hxy | ⟨-, rfl⟩
  · exact he.isExc (hc.links x y hxy)
  · exact he.isExc hv

/-- Placing an object whose links lead to exceptions keeps the chain sound: nothing links to
the new address yet. -/
theorem alloc (hc : h.ChainSound) {o : Obj} (he : h.Evolves (h.alloc o).1)
    (ho : ∀ b ∈ o.links, h.IsExc b) : (h.alloc o).1.ChainSound := by
  have hsub : ∀ x y, (h.alloc o).1.Link x y → y ≠ h.objs.size ∧ (x ≠ h.objs.size → h.Link x y) := by
    intro x y hxy
    by_cases hx : x = h.objs.size
    · subst hx
      rw [Link, Vm.links_alloc_new] at hxy
      exact ⟨Nat.ne_of_lt (ho y hxy).lt, fun hne => absurd rfl hne⟩
    · rw [Link, Vm.links_alloc_old hx] at hxy
      exact ⟨Nat.ne_of_lt (hc.links x y hxy).lt, fun _ => hxy⟩
  refine ⟨fun x y hxy => ?_, hc.acyclic.of_entry_free hsub⟩
  by_cases hx : x = h.objs.size
  · subst hx
    rw [Link, Vm.links_alloc_new] at hxy
    exact he.isExc (ho y hxy)
  · exact he.isExc (hc.links x y ((hsub x y hxy).2 hx))

end ChainSound

theorem not_reflTransGen_of_search {u v : Addr} (hne : v ≠ u)
    (hs : Vm.chainReaches h v u = false) : ¬ Relation.ReflTransGen h.Link v u := by
  intro hvu
  rcases Relation.ReflTransGen.cases_head hvu with rfl | ⟨c, hvc, hcu⟩
  · exact hne rfl
  · have := (Vm.chainReaches_iff h v u).2 (.head' hvc hcu)
    rw [hs] at this
    cases this

end Heap

end StackVm
