import StackVm.Proofs.Engine.Activation
import StackVm.Proofs.Steady.Machine

/-! The sites of instructions are bookkeeping the rest of the engine never reads back.  Replacing
a site by one whose guess is right, and counting hits, misses and settled sites, changes only
what erasing forgets, so the activation stays sound and its erasure stays the same
(`Active.Unseen`).  Operator sites only ever count and settle on guesses that promise nothing.

A cached instruction shadows its plain form: from every sound state it does such bookkeeping
and then either runs the plain form or returns what the plain form returns
(`Act.Shadows`); on an erased machine it is the plain form.  Such an instruction keeps the
invariants (`Triple.of_shadows`). -/

namespace StackVm

open EngineState

/-- The profile with the site of an offset replaced. -/
def Profile.withSite (pr : Profile) (pc : Nat) (s : Site) : Profile :=
  { pr with sites := pr.sites.set! pc s }

@[simp] theorem Profile.erase_withSite (pr : Profile) (pc : Nat) (s : Site) :
    (pr.withSite pc s).erase = pr.erase := by
  simp only [Profile.erase, Profile.withSite, Profile.mk.injEq, and_true,
    Array.set!_eq_setIfInBounds]
  apply Array.ext_getElem?
  intro i
  simp only [Array.getElem?_map, Array.getElem?_setIfInBounds]
  split
  · split <;> simp_all
  · rfl

namespace Machine

variable {m : Machine}

/-- The machine with the site of an offset of a profile replaced. -/
def withSite (m : Machine) (p pc : Nat) (s : Site) : Machine :=
  { m with profiles := m.profiles.modify p fun pr => pr.withSite pc s }

@[simp] theorem withSite_heap (p pc : Nat) (s : Site) : (m.withSite p pc s).heap = m.heap := rfl

@[simp] theorem erase_withSite (p pc : Nat) (s : Site) : (m.withSite p pc s).erase = m.erase := by
  simp only [erase, withSite, mk.injEq, and_true, true_and]
  apply Array.ext_getElem?
  intro i
  simp only [Array.getElem?_map, Array.getElem?_modify]
  split
  · simp only [Option.map_map, Function.comp_def, Profile.erase_withSite]
  · rfl

theorem siteAt_withSite {p pc q qc : Nat} {s s' : Site}
    (h : (m.withSite p pc s).siteAt q qc = some s') :
    (q = p ∧ qc = pc ∧ s' = s) ∨ m.siteAt q qc = some s' := by
  simp only [siteAt, withSite, Array.getElem?_modify] at h ⊢
  split at h
  · next hpq =>
    subst hpq
    obtain ⟨pr, hpr, hs⟩ := Option.bind_eq_some_iff.1 h
    obtain ⟨pr₀, hpr₀, rfl⟩ := Option.map_eq_some_iff.1 hpr
    simp only [Profile.withSite, Array.set!_eq_setIfInBounds, Array.getElem?_setIfInBounds] at hs
    by_cases hpc : pc = qc
    · subst hpc
      simp only [if_true] at hs
      split at hs
      · exact .inl ⟨rfl, rfl, (Option.some.inj hs).symm⟩
      · cases hs
    · rw [if_neg hpc] at hs
      exact .inr (Option.bind_eq_some_iff.2 ⟨pr₀, hpr₀, hs⟩)
  · exact .inr h

theorem evolves_withSite (p pc : Nat) (s : Site) : m.Evolves (m.withSite p pc s) :=
  ⟨.refl _, rfl, Array.size_modify⟩

theorem Sound.withSite (hs : m.Sound) {a : Addr} {c : CodeObj} {pc : Nat} {s : Site}
    (hc : m.heap.get? a = some (.code c))
    (hsite : m.heap.HostsCoherent → s.cache.SoundAt m c.unit pc) :
    (m.withSite c.profile pc s).Sound where
  heap := hs.heap
  context := hs.context
  profiled b d hd := by
    rw [Machine.withSite, Array.size_modify]
    exact hs.profiled b d hd
  owners := hs.owners
  caches hco b d qc s' hd hs' := by
    have he := evolves_withSite (m := m) c.profile pc s
    rcases siteAt_withSite hs' with ⟨hp, rfl, rfl⟩ | hold
    · rw [hs.owners b a d c hd hc hp]
      exact (hsite hco).evolves he
    · exact (hs.caches hco b d qc s' hd hold).evolves he

end Machine

/-- A guess that promises nothing, so it is right on every machine. -/
def SiteCache.Vacuous (c : SiteCache) : Prop := ∀ m u pc, c.SoundAt m u pc

theorem SiteCache.vacuous_generic : SiteCache.generic.Vacuous := fun _ _ _ => trivial

theorem Site.vacuous_miss (s : Site) : s.miss.cache.Vacuous := by
  unfold Site.miss
  dsimp only
  split
  · exact SiteCache.vacuous_generic
  · exact fun _ _ _ => trivial

namespace Active

/-- A later state that only its sites and their counters tell apart: erasing forgets the
difference, and soundness carries over. -/
structure Unseen (s s' : Active) : Prop where
  frame : s'.frame = s.frame
  erase : s'.machine.erase = s.machine.erase
  sound : s.Sound → s'.Sound

namespace Unseen

variable {s s' s'' : Active}

theorem refl (s : Active) : Unseen s s := ⟨rfl, rfl, id⟩

theorem trans (h₁ : Unseen s s') (h₂ : Unseen s' s'') : Unseen s s'' :=
  ⟨h₂.frame.trans h₁.frame, h₂.erase.trans h₁.erase, h₂.sound ∘ h₁.sound⟩

theorem heap (h : Unseen s s') : s'.machine.heap = s.machine.heap := by
  rw [← Machine.erase_heap, h.erase, Machine.erase_heap]

theorem evolves (h : Unseen s s') : s.machine.Evolves s'.machine := by
  refine ⟨h.heap ▸ .refl _, ?_, ?_⟩
  · rw [← Machine.erase_builtins, h.erase, Machine.erase_builtins]
  · rw [← Machine.size_erase_profiles, h.erase, Machine.size_erase_profiles]

theorem erase_eq (h : Unseen s s') : s'.erase = s.erase := by
  obtain ⟨m, f⟩ := s
  obtain ⟨m', f'⟩ := s'
  obtain ⟨hf, hm, -⟩ := h
  dsimp only at hf hm
  rw [Active.erase, Active.erase, hf, hm]

end Unseen

theorem unseen_withSite {s : Active} {st : Site}
    (hst : s.Sound → s.machine.heap.HostsCoherent →
      st.cache.SoundAt s.machine s.frame.unit s.frame.instrPc) :
    s.Unseen ⟨s.machine.withSite s.frame.code.profile s.frame.instrPc st, s.frame⟩ :=
  ⟨rfl, Machine.erase_withSite _ _ _, fun hs =>
    ⟨hs.machine.withSite hs.frame.code (hst hs), hs.frame⟩⟩

end Active

namespace Act

open Active

variable {α β : Type} {x : Act α} {f : α → Act β}

/-- A computation that finishes on every state, changing only sites and their counters. -/
def Unnoticed (x : Act α) : Prop := ∀ s, ∃ a s', x s = .ok a s' ∧ s.Unseen s'

namespace Unnoticed

protected theorem pure (a : α) : Unnoticed (Pure.pure a : Act α) := fun s => ⟨a, s, rfl, .refl s⟩

protected theorem bind (hx : Unnoticed x) (hf : ∀ a, Unnoticed (f a)) : Unnoticed (x >>= f) := by
  intro s
  obtain ⟨a, s₁, hx₁, h₁⟩ := hx s
  obtain ⟨b, s₂, hf₂, h₂⟩ := hf a s₁
  exact ⟨b, s₂, (EStateM.run_bind_of_ok hx₁).trans hf₂, h₁.trans h₂⟩

protected theorem ite {c : Prop} [Decidable c] {y : Act α} (hx : c → Unnoticed x)
    (hy : ¬ c → Unnoticed y) : Unnoticed (if c then x else y) := by
  split
  · exact hx ‹_›
  · exact hy ‹_›

protected theorem reads (g : Frame → α) : Unnoticed (reads g) := fun s => ⟨_, s, rfl, .refl s⟩

protected theorem readsMachine (g : Machine → α) : Unnoticed (readsMachine g) :=
  fun s => ⟨_, s, rfl, .refl s⟩

protected theorem site : Unnoticed site := fun s => ⟨_, s, rfl, .refl s⟩

protected theorem setSite {st : Site} (hst : st.cache.Vacuous) : Unnoticed (setSite st) :=
  fun _ => ⟨(), _, rfl, unseen_withSite fun _ _ => hst _ _ _⟩

protected theorem count {g : Stats → Stats}
    (hg : ∀ st : Stats, { g st with cacheHits := 0, cacheMisses := 0, resolvedSites := 0 } =
      { st with cacheHits := 0, cacheMisses := 0, resolvedSites := 0 }) :
    Unnoticed (count g) := by
  rintro ⟨m, f⟩
  refine ⟨(), _, rfl, rfl, ?_, fun hs => ⟨?_, hs.frame⟩⟩
  · simp only [Machine.erase, hg]
  · exact hs.machine.of_evolves ⟨.refl _, rfl, rfl⟩ hs.machine.heap hs.machine.context rfl

theorem hit : Unnoticed hit := Unnoticed.count fun _ => rfl

theorem missAt (st : Site) : Unnoticed (missAt st) :=
  (Unnoticed.setSite (Site.vacuous_miss st)).bind fun _ => Unnoticed.count fun _ => rfl

theorem settle (st : Site) {c : SiteCache} (hc : c.Vacuous) : Unnoticed (settle st c) :=
  (@Unnoticed.setSite { st with cache := c } hc).bind fun _ => Unnoticed.count fun _ => rfl

/-- Bookkeeping that returns nothing and does nothing on an erased machine keeps the invariants:
the end state is the start with sites changed, which erasing forgets. -/
theorem safe {x : Act Unit} (hx : Unnoticed x) (herase : ∀ s : Active, x s.erase = .ok () s.erase) :
    Safe x := by
  intro s hs _
  obtain ⟨u, s', hrun, hu⟩ := hx s
  refine ⟨hrun ▸ hu.sound hs, hrun ▸ hu.evolves, fun _ _ _ => trivial, fun _ _ h => ?_,
    fun _ => ?_⟩
  · rw [hrun] at h
    cases h
  · change x s.erase = (x s).mapState Active.erase
    rw [herase, hrun, EStateM.Result.mapState, hu.erase_eq]

end Unnoticed

/-- The guess a binary operator site settles on is right at that operator's instruction: a
string guess is only made for `+`. -/
theorem binaryKind_soundAt {m : Machine} {u : CodeUnit} {pc : Nat} {h : Heap} {op : BinaryOp}
    {x y : Value} (hop : Opcode.ofByte? (u.byteAt pc) = some (.binary op)) :
    (binaryKind h op x y).SoundAt m u pc := by
  unfold binaryKind
  split
  · trivial
  · split <;> trivial
  · split
    · next hadd =>
      intro o ho
      rw [hop, Option.some.injEq, Opcode.binary.injEq] at ho
      subst ho
      simp only [Bool.and_eq_true, beq_iff_eq] at hadd
      exact hadd.1.1
    · trivial

theorem compareKind_soundAt {m : Machine} {u : CodeUnit} {pc : Nat} {h : Heap} {op : CompareOp}
    {x y : Value} (hop : Opcode.ofByte? (u.byteAt pc) = some (.compareWith op)) :
    (compareKind h x y).SoundAt m u pc := by
  unfold compareKind
  split
  · trivial
  · trivial
  · split
    · intro o ho
      rw [hop] at ho
      cases ho
    · trivial

theorem specializing_bind_run {β : Type} (f : Bool → Act β) (s : Active) :
    (specializing >>= f) s = f s.machine.config.specialize s := rfl

theorem site_bind_run {β : Type} (f : Option Site → Act β) (s : Active) :
    (site >>= f) s = f (s.machine.siteAt s.frame.code.profile s.frame.instrPc) s := rfl

theorem settle_unseen {s : Active} (st : Site) {c : SiteCache}
    (hc : s.Sound → s.machine.heap.HostsCoherent →
      c.SoundAt s.machine s.frame.unit s.frame.instrPc) :
    ∃ s', settle st c s = .ok () s' ∧ s.Unseen s' := by
  obtain ⟨_, s₂, hcount, hu₂⟩ :=
    Unnoticed.count (g := fun st => { st with resolvedSites := st.resolvedSites + 1 }) (fun _ => rfl)
      ⟨s.machine.withSite s.frame.code.profile s.frame.instrPc { st with cache := c }, s.frame⟩
  exact ⟨s₂, (EStateM.run_bind_of_ok rfl).trans hcount,
    (Active.unseen_withSite hc).trans hu₂⟩

theorem vm_run_ok {x : Vm α} {m m' : Machine} {f : Frame} {a : α} (h : x m = .ok a m') :
    vm x ⟨m, f⟩ = .ok a ⟨m', f⟩ := by
  simp only [vm, h]

theorem heap_bind_run {β : Type} (f : Heap → Act β) (s : Active) :
    (heap >>= f) s = f s.machine.heap s := rfl

/-- From `s`, `x` returns a value meeting `Q` after bookkeeping only. -/
def Quietly (x : Act α) (s : Active) (Q : α → Prop) : Prop :=
  ∃ a s', x s = .ok a s' ∧ s.Unseen s' ∧ Q a

namespace Quietly

variable {x x' : Act α} {s s₁ : Active} {Q : α → Prop}

theorem of_eq (hrun : x s = x' s) (h : Quietly x' s Q) : Quietly x s Q := by
  obtain ⟨a, s', hx, hu, hq⟩ := h
  exact ⟨a, s', hrun.trans hx, hu, hq⟩

protected theorem pure {a : α} (hq : Q a) : Quietly (Pure.pure a) s Q := ⟨a, s, rfl, .refl s, hq⟩

theorem mono {Q' : α → Prop} (h : Quietly x s Q) (hQ : ∀ a, Q a → Q' a) : Quietly x s Q' := by
  obtain ⟨a, s', hx, hu, hq⟩ := h
  exact ⟨a, s', hx, hu, hQ a hq⟩

theorem after (hu : s.Unseen s₁) (h : Quietly x s₁ Q) (hrun : x' s = x s₁) : Quietly x' s Q := by
  obtain ⟨a, s', hx, hu', hq⟩ := h
  exact ⟨a, s', hrun.trans hx, hu.trans hu', hq⟩

theorem bind {f : β → Act α} {y : Act β} (hy : Unnoticed y) (hf : ∀ b s₁, s.Unseen s₁ → Quietly (f b) s₁ Q) :
    Quietly (y >>= f) s Q := by
  obtain ⟨b, s₁, hrun, hu⟩ := hy s
  exact after hu (hf b s₁ hu) (EStateM.run_bind_of_ok hrun)

end Quietly

theorem operatorCaching_bind_run {β : Type} (f : Bool → Act β) (s : Active) :
    (operatorCaching >>= f) s = f (s.machine.config.specialize && s.machine.fastPaths) s := rfl

/-- An operator site's run on a guess that is right: a hit counts and gives the guess, a miss
reopens the site. -/
theorem quietly_operatorGuess {s s₁ : Active} {st : Site} {hits : SiteCache → Bool}
    (hright : s.Sound → s.machine.heap.HostsCoherent →
      st.cache.SoundAt s.machine s.frame.unit s.frame.instrPc) :
    Quietly (operatorGuess st hits) s₁ fun hit => ∀ c, hit = some c → hits c = true ∧
      (s.Sound → s.machine.heap.HostsCoherent →
        c.SoundAt s.machine s.frame.unit s.frame.instrPc) := by
  unfold operatorGuess
  split
  · exact Quietly.pure fun _ h => nomatch h
  · split
    · next hh =>
      exact Quietly.bind Unnoticed.hit fun _ _ _ => Quietly.pure fun c hc => by
        cases hc
        exact ⟨hh, hright⟩
    · exact Quietly.bind (Unnoticed.missAt st) fun _ _ _ => Quietly.pure fun _ h => nomatch h

/-- An operator site's run, from a state where the guess it would settle on is right, is
bookkeeping, and a guess it hit with applies to the operands and is right. -/
theorem quietly_noteOperator {s : Active} {kind : SiteCache} {hits : SiteCache → Bool}
    (hkind : s.Sound → s.machine.heap.HostsCoherent →
      kind.SoundAt s.machine s.frame.unit s.frame.instrPc) :
    Quietly (noteOperator kind hits) s fun hit => ∀ c, hit = some c → hits c = true ∧
      (s.Sound → s.machine.heap.HostsCoherent →
        c.SoundAt s.machine s.frame.unit s.frame.instrPc) := by
  unfold noteOperator
  refine Quietly.of_eq (operatorCaching_bind_run _ s) ?_
  cases s.machine.config.specialize && s.machine.fastPaths
  · exact Quietly.pure fun _ h => nomatch h
  refine Quietly.of_eq (site_bind_run _ s) ?_
  cases hsite : s.machine.siteAt s.frame.code.profile s.frame.instrPc with
  | none => exact Quietly.pure fun _ h => nomatch h
  | some st =>
    dsimp only
    split
    · obtain ⟨s₁, hsettle, hu⟩ := settle_unseen (s := s) st hkind
      exact Quietly.after hu (quietly_operatorGuess hkind) (EStateM.run_bind_of_ok hsettle)
    · exact quietly_operatorGuess fun hs hco => hs.machine.caches hco _ _ _ _ hs.frame.code hsite

/-! ### Shadowed computations -/

/-- From `s`, `x` does bookkeeping and then runs a safe computation whose result erases to
that of `y` run after some bookkeeping (the latter when host objects agree on layouts). -/
def Shadows (x y : Act α) (s : Active) : Prop :=
  ∃ s' z, s.Unseen s' ∧ Safe z ∧ x s = z s' ∧
    (s.machine.heap.HostsCoherent → ∃ s₀, s.Unseen s₀ ∧
      (z s').mapState Active.erase = (y s₀).mapState Active.erase)

namespace Shadows

variable {x x' y : Act α} {s s₁ : Active}

theorem of_run (hy : Safe y) (hu : s.Unseen s₁) (hrun : x s = y s₁) : Shadows x y s :=
  ⟨s₁, y, hu, hy, hrun, fun _ => ⟨s₁, hu, rfl⟩⟩

theorem of_ok {v : α} (hu : s.Unseen s₁) (hrun : x s = .ok v s₁)
    (hy : s.machine.heap.HostsCoherent → y s = .ok v s) : Shadows x y s :=
  ⟨s₁, Pure.pure v, hu, Safe.pure v, hrun, fun hco =>
    ⟨s, .refl s, by
      rw [hy hco]
      show EStateM.Result.ok v s₁.erase = .ok v s.erase
      rw [hu.erase_eq]⟩⟩

theorem of_eq (hrun : x s = x' s) (h : Shadows x' y s) : Shadows x y s := by
  obtain ⟨s', z, hu, hz, hx, hsame⟩ := h
  exact ⟨s', z, hu, hz, hrun.trans hx, hsame⟩

theorem after (hu : s.Unseen s₁) (h : Shadows x y s₁) (hrun : x' s = x s₁) : Shadows x' y s := by
  obtain ⟨s', z, hu', hz, hx, hsame⟩ := h
  refine ⟨s', z, hu.trans hu', hz, hrun.trans hx, fun hco => ?_⟩
  obtain ⟨s₀, hu₀, h₀⟩ := hsame (hu.heap ▸ hco)
  exact ⟨s₀, hu.trans hu₀, h₀⟩

end Shadows

/-- A computation that shadows a safe one from every sound state meeting `P`, and runs as it on
erased states, keeps the invariants. -/
theorem Triple.of_shadows {P : Active → Prop} {x y : Act α} (hy : Safe y)
    (hplain : ∀ s : Active, x s.erase = y s.erase)
    (h : ∀ s : Active, s.Sound → P s → Shadows x y s) : Triple P x (fun _ _ => True) := by
  intro s hs hp
  obtain ⟨s', z, hu, hz, hrun, hsame⟩ := h s hs hp
  have g := hz s' (hu.sound hs) trivial
  refine ⟨?_, ?_, fun _ _ _ => trivial, fun e s'' he => ⟨trivial, ?_⟩, fun hco => ?_⟩
  · rw [hrun]
    exact g.sound
  · rw [hrun]
    exact hu.evolves.trans g.evolves
  · rw [hrun] at he
    exact (g.error e s'' he).2
  · obtain ⟨s₀, hu₀, hzy⟩ := hsame hco
    have hy₀ : y s₀.erase = (y s₀).mapState Active.erase :=
      (hy s₀ (hu₀.sound hs) trivial).erase (hu₀.heap ▸ hco)
    change x s.erase = (x s).mapState Active.erase
    rw [hplain, ← hu₀.erase_eq, hy₀, hrun, hzy]

end Act

end StackVm
