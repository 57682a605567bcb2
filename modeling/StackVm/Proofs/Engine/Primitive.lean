import StackVm.Proofs.Engine.Spec

/-! The primitive operations of the machine and what they keep.  Placing an object keeps the
machine sound when the object is of a kind the engine makes, its links lead to exceptions and a
generator among them is fresh.  Changing an object in place keeps it sound when the object
becomes what it may (`Obj.Becomes`), a generator stays coherent with a sound parked frame, and
the exception chain stays sound: ordinary objects change freely, namespaces move to their next
version, host objects keep their layout, and an exception may drop links or gain one that does
not lead back to it.  Every such change commutes with erasing. -/

namespace StackVm

open EngineState

theorem Obj.links_of_ordinary {o : Obj} (ho : o.Ordinary) : o.links = [] := by
  cases o <;> first | rfl | exact absurd ho id

namespace Machine

variable {m : Machine} {o : Obj} {a : Addr} {F : Obj → Obj}

/-- Placing an object of a kind the engine makes, whose links lead to exceptions and which,
if a generator, is a fresh one. -/
theorem Sound.alloc (hs : m.Sound) (hmade : o.Made)
    (hfresh : ∀ g, o = .generator g → g.Coherent ∧ g.frame = none)
    (hlinks : ∀ b ∈ o.links, m.heap.IsExc b) : { m with heap := (m.heap.alloc o).1 }.Sound := by
  have he : m.heap.Evolves (m.heap.alloc o).1 := Heap.Evolves.alloc _ hmade
  refine hs.of_evolves (.ofHeap he) (hs.heap.of_evolves he (fun b g' hg' => ?_)
    (hs.heap.chain.alloc he hlinks)) (fun c hc => he.isExc (hs.context c hc)) rfl
  rcases Heap.get?_alloc_cases hg' with hg' | ⟨_, rfl⟩
  · exact .inl hg'
  · obtain ⟨hco, hnone⟩ := hfresh g' rfl
    refine .inr ⟨hco, fun f hf => ?_⟩
    rw [hnone] at hf
    cases hf

/-- Changing the object at `a`: it becomes what it may, a generator it becomes is the old one or
coherent with a sound parked frame, and the chain stays sound. -/
theorem Sound.modify (hs : m.Sound) (hF : ∀ o, m.heap.get? a = some o → o.Becomes (F o))
    (hgen : ∀ o g, m.heap.get? a = some o → F o = .generator g → o = .generator g ∨
      (g.Coherent ∧ ∀ f, g.frame = some f → f.Sound (m.heap.modify a F)))
    (hchain : (m.heap.modify a F).ChainSound) : { m with heap := m.heap.modify a F }.Sound := by
  have he : m.heap.Evolves (m.heap.modify a F) := Heap.Evolves.modify _ _ hF
  refine hs.of_evolves (.ofHeap he) (hs.heap.of_evolves he (fun b g' hg' => ?_) hchain)
    (fun c hc => he.isExc (hs.context c hc)) rfl
  rw [Heap.get?_modify_eq] at hg'
  split at hg'
  · subst_vars
    obtain ⟨o, ho, hFo⟩ := Option.map_eq_some_iff.1 hg'
    rcases hgen o g' ho hFo with rfl | h
    · exact .inl ho
    · exact .inr h
  · exact .inl hg'

theorem Sound.modify_keep (hs : m.Sound) (hF : ∀ o, m.heap.get? a = some o → o.Becomes (F o))
    (hgen : ∀ o g, F o = .generator g → o = .generator g) (hlinks : ∀ o, (F o).links = o.links) :
    { m with heap := m.heap.modify a F }.Sound :=
  hs.modify hF (fun o g _ h => .inl (hgen o g h))
    (hs.heap.chain.modify_sub (Heap.Evolves.modify _ _ hF) fun o _ => by
      rw [hlinks]
      exact List.Subset.refl _)

theorem Sound.modify_plain (hs : m.Sound) (hF : Obj.Plain F) :
    { m with heap := m.heap.modify a F }.Sound := by
  refine hs.modify_keep (fun o _ => .of_plain hF o)
    (fun o g h => (Obj.Plain.apply_eq hF (o := o) (show ¬ (Obj.generator g).Ordinary from id)).1 h)
    fun o => ?_
  rcases hF o with h | ⟨ho, hFo⟩
  · rw [h]
  · rw [Obj.links_of_ordinary ho, Obj.links_of_ordinary hFo]

theorem Sound.modify_globals (hs : m.Sound) {f : Globals → Globals}
    (hf : ∀ g, m.heap.get? a = some (.globals g) → g.Precedes (f g)) :
    { m with heap := m.heap.modify a (Obj.mapGlobals f) }.Sound := by
  refine hs.modify_keep (fun o ho => ?_) (fun o g h => by cases o <;> first | exact h | cases h)
    fun o => by cases o <;> rfl
  cases o
  case globals g => exact .of_globals (hf g ho)
  all_goals exact .refl _

theorem Sound.modify_host (hs : m.Sound) {f : HostObject → HostObject}
    (hsh : ∀ p : HostObject, (f p).shape = p.shape)
    (hn : ∀ p : HostObject, (f p).slotNames = p.slotNames) :
    { m with heap := m.heap.modify a (Obj.mapHost f) }.Sound :=
  hs.modify_keep (fun o _ => .mapHost hsh hn o) (fun o g h => by cases o <;> first | exact h | cases h)
    fun o => by cases o <;> rfl

theorem Sound.modify_exc_sub (hs : m.Sound) {f : Exc → Exc}
    (hf : ∀ e, (Obj.exception (f e)).links ⊆ (Obj.exception e).links) :
    { m with heap := m.heap.modify a (Obj.mapExc f) }.Sound := by
  have hF : ∀ o, m.heap.get? a = some o → o.Becomes (o.mapExc f) := fun o _ => .mapExc f o
  refine hs.modify hF (fun o g _ h => .inl (by cases o <;> first | exact h | cases h))
    (hs.heap.chain.modify_sub (Heap.Evolves.modify _ _ hF) fun o _ => ?_)
  cases o
  case exception e _ => exact hf e
  all_goals exact List.Subset.refl _

theorem Sound.modify_exc_add (hs : m.Sound) {f : Exc → Exc} {v : Addr}
    (hf : ∀ e, ∀ b ∈ (Obj.exception (f e)).links, b ∈ (Obj.exception e).links ∨ b = v)
    (hv : m.heap.IsExc v) (hva : ¬ Relation.ReflTransGen m.heap.Link v a) :
    { m with heap := m.heap.modify a (Obj.mapExc f) }.Sound := by
  have hF : ∀ o, m.heap.get? a = some o → o.Becomes (o.mapExc f) := fun o _ => .mapExc f o
  refine hs.modify hF (fun o g _ h => .inl (by cases o <;> first | exact h | cases h))
    (hs.heap.chain.modify_add (Heap.Evolves.modify _ _ hF) (fun o _ b hb => ?_) hv hva)
  cases o
  case exception e _ => exact hf e b hb
  all_goals exact .inl hb

/-- Changing a generator as `Generator.Stays` allows into a coherent one whose parked frame is
sound. -/
theorem Sound.modify_generator (hs : m.Sound) {f : Generator → Generator} {g : Generator}
    (hg : m.heap.get? a = some (.generator g)) (hst : g.Stays (f g)) (hco : (f g).Coherent)
    (hfr : ∀ fr, (f g).frame = some fr → fr.Sound m.heap) :
    { m with heap := m.heap.modify a (Obj.mapGenerator f) }.Sound := by
  have hF : ∀ o, m.heap.get? a = some o → o.Becomes (o.mapGenerator f) := by
    intro o ho
    rw [hg] at ho
    cases ho
    exact .of_generator hst
  have he : m.heap.Evolves (m.heap.modify a (Obj.mapGenerator f)) := Heap.Evolves.modify _ _ hF
  refine hs.modify hF (fun o g' ho h => ?_)
    (hs.heap.chain.modify_sub he fun o _ => by cases o <;> exact List.Subset.refl _)
  rw [hg] at ho
  cases ho
  cases h
  exact .inr ⟨hco, fun fr hf => (hfr fr hf).evolves he⟩

end Machine

namespace Vm

variable {α : Type} {P : Machine → Prop} {Q : α → Machine → Prop} {E : Fault → Machine → Prop}

theorem safe_get_bind {f : Machine → Vm α} (hf : ∀ m, Safe (f m)) (hinv : ∀ m, f m.erase = f m) :
    Safe (get >>= f) :=
  Triple.get_bind (fun m₀ => (hf m₀).mono (fun _ _ => trivial) (fun _ _ h => h) fun _ _ h => h) hinv

theorem spec_alloc {o : Obj} (hmade : o.Made)
    (hfresh : ∀ g, o = .generator g → g.Coherent ∧ g.frame = none)
    (hlinks : ∀ m, m.Sound → P m → ∀ b ∈ o.links, m.heap.IsExc b)
    {Q : Addr → Machine → Prop}
    (hQ : ∀ m, m.Sound → P m → Q m.heap.objs.size { m with heap := (m.heap.alloc o).1 }) :
    Triple P (alloc o) Q E :=
  Triple.modifyGet (fun m hs hp => ⟨hs.alloc hmade hfresh (hlinks m hs hp),
    .ofHeap (.alloc _ hmade), hQ m hs hp⟩) fun _ => rfl

theorem spec_modifyObj {a : Addr} {F : Obj → Obj} {Q : Unit → Machine → Prop}
    (hF : ∀ m, m.Sound → P m → ∀ o, m.heap.get? a = some o → o.Becomes (F o))
    (hsound : ∀ m, m.Sound → P m → { m with heap := m.heap.modify a F }.Sound)
    (hQ : ∀ m, m.Sound → P m → Q () { m with heap := m.heap.modify a F }) :
    Triple P (modifyObj a F) Q E :=
  Triple.modify (fun m hs hp => ⟨hsound m hs hp, .ofHeap (.modify _ _ (hF m hs hp)), hQ m hs hp⟩)
    fun _ => rfl

theorem spec_newExc {e : Exc} (hlinks : ∀ m, m.Sound → P m → ∀ b ∈ (Obj.exception e).links,
      m.heap.IsExc b)
    {Q : Addr → Machine → Prop}
    (hQ : ∀ m, m.Sound → P m → Q m.heap.objs.size
      { m with heap := (m.heap.alloc (.exception e)).1 }) :
    Triple P (newExc e) Q E :=
  spec_alloc ⟨(fun _ h => by cases h), (fun _ h => by cases h)⟩ (fun _ h => by cases h) hlinks hQ

theorem spec_raise (r : Raise)
    (hE : ∀ m, m.Sound → P m → E (.raise m.heap.objs.size)
      { m with heap := (m.heap.alloc (.exception { type := r.type, message := r.message })).1 }) :
    Triple P (raise r : Vm α) Q E := by
  unfold raise
  refine Triple.bind (Q := fun a m' => E (.raise a) m' ∧ m'.heap.IsExc a)
    (spec_newExc (fun _ _ _ b hb => by cases hb) fun m hs hp => ⟨hE m hs hp, ?_⟩) fun a => ?_
  · exact ⟨_, Heap.get?_alloc _ _⟩
  · exact Triple.throw (fun _ _ hp => hp.1) fun _ _ hp a' ha => by cases ha; exact hp.2

theorem safe_raise (r : Raise) : Safe (raise r : Vm α) := spec_raise r fun _ _ _ => trivial

theorem safe_raise_bind {β : Type} (r : Raise) (k : α → Vm β) : Safe (raise r >>= k) :=
  (spec_raise (Q := fun _ _ => False) r fun _ _ _ => trivial).bind fun _ => Triple.of_false

theorem safe_raiseMsg (t : ExcType) (msg : String) : Safe (raiseMsg t msg : Vm α) :=
  safe_raise _

theorem safe_ofExcept (x : Except Raise α) : Safe (ofExcept x) := by
  cases x with
  | error r => exact safe_raise r
  | ok v => exact Triple.pure fun _ _ _ => trivial

theorem spec_internal (msg : String) (hE : ∀ m, m.Sound → P m → E (.internal (.malformed msg)) m) :
    Triple P (internal msg : Vm α) Q E :=
  Triple.throw hE fun _ _ _ _ h => by cases h

theorem safe_internal (msg : String) : Safe (internal msg : Vm α) :=
  spec_internal msg fun _ _ _ => trivial

theorem safe_alloc (o : Obj) (ho : o.Ordinary) : Safe (alloc o) := by
  refine spec_alloc ⟨fun c h => ?_, fun p h => ?_⟩ (fun g h => ?_) (fun _ _ _ b hb => ?_)
    fun _ _ _ => trivial
  · subst h
    exact ho
  · subst h
    exact ho
  · subst h
    exact absurd ho id
  · rw [Obj.links_of_ordinary ho] at hb
    cases hb

theorem safe_int (i : Int) : Safe (int i) := by
  unfold int
  exact Triple.ite (fun _ => Triple.pure fun _ _ _ => trivial)
    fun _ => (safe_alloc (.bigInt i) trivial).bind fun _ => Triple.pure fun _ _ _ => trivial

theorem safe_num (r : Num) : Safe (num r) := by
  cases r with
  | int i => exact safe_int i
  | float f => exact Triple.pure fun _ _ _ => trivial

theorem safe_str (s : String) : Safe (str s) :=
  (safe_alloc (.str s) trivial).bind fun _ => Triple.pure fun _ _ _ => trivial

theorem safe_tuple (items : Array Value) : Safe (tuple items) :=
  (safe_alloc (.tuple items) trivial).bind fun _ => Triple.pure fun _ _ _ => trivial

theorem safe_list (items : Array Value) : Safe (list items) :=
  (safe_alloc (.list items) trivial).bind fun _ => Triple.pure fun _ _ _ => trivial

theorem spec_obj (a : Addr) :
    Triple P (obj a) (fun o m => P m ∧ m.heap.get? a = some o) (fun _ m => P m) := by
  unfold obj
  refine Triple.get_bind (fun m₀ => ?_) fun _ => rfl
  split
  case h_1 o ho => exact Triple.pure fun m _ hp => ⟨hp.1, hp.2 ▸ ho⟩
  case h_2 => exact Triple.throw (fun _ _ hp => hp.1) fun _ _ _ _ h => by cases h

theorem spec_exc (a : Addr) :
    Triple P (exc a) (fun e m => P m ∧ m.heap.get? a = some (.exception e)) (fun _ m => P m) := by
  unfold exc
  refine (spec_obj a).bind fun o => ?_
  split
  case h_1 e => exact Triple.pure fun _ _ hp => hp
  case h_2 => exact spec_internal _ fun _ _ hp => hp.1

theorem safe_modifyObj_plain (a : Addr) {F : Obj → Obj} (hF : Obj.Plain F) :
    Safe (modifyObj a F) :=
  spec_modifyObj (fun _ _ _ o _ => .of_plain hF o) (fun _ hs _ => hs.modify_plain hF)
    fun _ _ _ => trivial

theorem safe_modifyObj_host (a : Addr) (f : HostObject → HostObject)
    (hs : ∀ p : HostObject, (f p).shape = p.shape)
    (hn : ∀ p : HostObject, (f p).slotNames = p.slotNames) : Safe (modifyObj a (Obj.mapHost f)) :=
  spec_modifyObj (fun _ _ _ o _ => .mapHost hs hn o) (fun _ hs' _ => hs'.modify_host hs hn)
    fun _ _ _ => trivial

theorem safe_count {f : Stats → Stats}
    (hf : ∀ st : Stats, f { st with cacheHits := 0, cacheMisses := 0, resolvedSites := 0 } =
      { f st with cacheHits := 0, cacheMisses := 0, resolvedSites := 0 }) : Safe (count f) :=
  Triple.modify (fun m hs _ => ⟨hs.of_evolves ⟨.refl _, rfl, rfl⟩ hs.heap hs.context rfl,
    ⟨.refl _, rfl, rfl⟩, trivial⟩) fun m => by
      simp only [Machine.erase, hf]

end Vm

end StackVm
