import StackVm.Proofs.Engine.Sound

/-! What a computation of the engine guarantees, as pre- and postconditions (`Triple`).  Started
on a sound state that meets its precondition, a computation ends, finished or failed, on a sound
state whose machine evolved from the first; a finished run meets the postcondition, a failed
one the error condition; every exception it raises is in the store; and from the erased state
it runs alike, to the erased end (when host objects of one layout agree on their slots).

The rules here build such facts from those of the parts: `pure`, `throw`, `bind`, `tryCatch`
and the consequence rule for any state, reads and changes of the machine, of the frame, and
the machine computations inside an activation. -/

namespace StackVm

/-- The states computations of the engine run on: a machine, or an activation on one. -/
class EngineState (σ : Type) where
  /-- The machine of the state. -/
  machine : σ → Machine
  /-- The invariant of the state. -/
  Sound : σ → Prop
  /-- The state had its machine never specialized. -/
  erase : σ → σ

instance : EngineState Machine := ⟨id, Machine.Sound, Machine.erase⟩

instance : EngineState Active := ⟨Active.machine, Active.Sound, Active.erase⟩

namespace EngineState

@[simp] theorem machine_machine (m : Machine) : machine m = m := rfl
@[simp] theorem sound_machine (m : Machine) : Sound m = m.Sound := rfl
@[simp] theorem erase_machine (m : Machine) : erase m = m.erase := rfl
@[simp] theorem machine_active (s : Active) : machine s = s.machine := rfl
@[simp] theorem sound_active (s : Active) : Sound s = s.Sound := rfl
@[simp] theorem erase_active (s : Active) : erase s = s.erase := rfl

end EngineState

open EngineState

variable {σ α β : Type} [EngineState σ]

/-- The exception a fault raises, if any, is in the store. -/
def Raised (e : Fault) (s : σ) : Prop := ∀ a, e = .raise a → (machine s).heap.IsExc a

/-- One run of `x` from `s`: it ends on a sound state whose machine evolved from the first,
meets `Q` when it finishes and `E` when it fails, raises exceptions of the store, and runs alike
from the erased state when host objects agree on their layouts. -/
structure Good (x : EStateM Fault σ α) (s : σ) (Q : α → σ → Prop) (E : Fault → σ → Prop) :
    Prop where
  sound : Sound (x s).state
  evolves : (machine s).Evolves (machine (x s).state)
  ok : ∀ v s', x s = .ok v s' → Q v s'
  error : ∀ e s', x s = .error e s' → E e s' ∧ Raised e s'
  erase : (machine s).heap.HostsCoherent → x (erase s) = (x s).mapState erase

/-- Every run of `x` from a sound state that meets `P` is good. -/
def Triple (P : σ → Prop) (x : EStateM Fault σ α) (Q : α → σ → Prop)
    (E : Fault → σ → Prop := fun _ _ => True) : Prop :=
  ∀ s, Sound s → P s → Good x s Q E

/-- A computation that keeps the invariants and promises nothing else. -/
abbrev Safe (x : EStateM Fault σ α) : Prop := Triple (fun _ => True) x (fun _ _ => True)

namespace Good

variable {x : EStateM Fault σ α} {s : σ} {Q : α → σ → Prop} {E : Fault → σ → Prop}

theorem sound_ok (g : Good x s Q E) {v : α} {s' : σ} (h : x s = .ok v s') : Sound s' := by
  simpa only [h, EStateM.Result.state_ok] using g.sound

theorem sound_error (g : Good x s Q E) {e : Fault} {s' : σ} (h : x s = .error e s') :
    Sound s' := by
  simpa only [h, EStateM.Result.state_error] using g.sound

theorem evolves_ok (g : Good x s Q E) {v : α} {s' : σ} (h : x s = .ok v s') :
    (machine s).Evolves (machine s') := by
  simpa only [h, EStateM.Result.state_ok] using g.evolves

theorem evolves_error (g : Good x s Q E) {e : Fault} {s' : σ} (h : x s = .error e s') :
    (machine s).Evolves (machine s') := by
  simpa only [h, EStateM.Result.state_error] using g.evolves

theorem coherent (g : Good x s Q E) (hco : (machine s).heap.HostsCoherent) :
    (machine (x s).state).heap.HostsCoherent :=
  hco.evolves g.evolves.heap

end Good

namespace Triple

variable {P P' : σ → Prop} {Q Q' : α → σ → Prop} {R : β → σ → Prop}
  {E E' : Fault → σ → Prop} {x : EStateM Fault σ α} {f : α → EStateM Fault σ β}

theorem mono (hx : Triple P x Q E) (hP : ∀ s, P' s → P s) (hQ : ∀ v s, Q v s → Q' v s)
    (hE : ∀ e s, E e s → E' e s) : Triple P' x Q' E' := by
  intro s hs hp
  have g := hx s hs (hP s hp)
  exact ⟨g.sound, g.evolves, fun v s' h => hQ v s' (g.ok v s' h),
    fun e s' h => ⟨hE e s' (g.error e s' h).1, (g.error e s' h).2⟩, g.erase⟩

theorem pure {v : α} (h : ∀ s, Sound s → P s → Q v s) : Triple P (Pure.pure v) Q E := by
  intro s hs hp
  refine ⟨hs, .refl _, fun v' s' h' => ?_, (fun _ _ h' => by cases h'), fun _ => rfl⟩
  cases h'
  exact h s hs hp

theorem throw {e : Fault} (hE : ∀ s, Sound s → P s → E e s)
    (hr : ∀ s, Sound s → P s → Raised e s) :
    Triple P (MonadExcept.throw e : EStateM Fault σ α) Q E := by
  intro s hs hp
  refine ⟨hs, .refl _, (fun _ _ h' => by cases h'), fun e' s' h' => ?_, fun _ => rfl⟩
  cases h'
  exact ⟨hE s hs hp, hr s hs hp⟩

/-- Sequencing: what `x` promises is what `f` needs. -/
theorem bind (hx : Triple P x Q E) (hf : ∀ v, Triple (Q v) (f v) R E) : Triple P (x >>= f) R E := by
  intro s hs hp
  have gx := hx s hs hp
  change Good (EStateM.bind x f) s R E
  cases hxs : x s with
  | ok v s₁ =>
    have gf := hf v s₁ (gx.sound_ok hxs) (gx.ok v s₁ hxs)
    have hrun : EStateM.bind x f s = f v s₁ := by simp only [EStateM.bind, hxs]
    refine ⟨hrun ▸ gf.sound, hrun ▸ (gx.evolves_ok hxs).trans gf.evolves,
      fun w s' h => gf.ok w s' (hrun ▸ h), fun e s' h => gf.error e s' (hrun ▸ h), fun hco => ?_⟩
    have hco₁ : (machine s₁).heap.HostsCoherent := hco.evolves (gx.evolves_ok hxs).heap
    simp only [EStateM.bind, gx.erase hco, hxs, EStateM.Result.mapState_ok]
    exact gf.erase hco₁
  | error e s₁ =>
    have hrun : EStateM.bind x f s = .error e s₁ := by simp only [EStateM.bind, hxs]
    refine ⟨hrun ▸ gx.sound_error hxs, hrun ▸ gx.evolves_error hxs, fun w s' h => ?_,
      fun e' s' h => ?_, fun hco => ?_⟩
    · rw [hrun] at h
      cases h
    · rw [hrun] at h
      cases h
      exact gx.error e s₁ hxs
    · simp only [EStateM.bind, gx.erase hco, hxs, EStateM.Result.mapState_error]

theorem map {g : α → β} (hx : Triple P x Q E) : Triple P (g <$> x) (fun v s => ∃ w, v = g w ∧ Q w s) E :=
  hx.bind fun w => pure fun _ _ hq => ⟨w, rfl, hq⟩

theorem ite {c : Prop} [Decidable c] {y : EStateM Fault σ α} (hx : c → Triple P x Q E)
    (hy : ¬ c → Triple P y Q E) : Triple P (if c then x else y) Q E := by
  split
  · exact hx ‹_›
  · exact hy ‹_›

/-- A handler runs on the state the computation failed in. -/
theorem tryCatch {h : Fault → EStateM Fault σ α} (hx : Triple P x Q E)
    (hh : ∀ e, Triple (fun s => E e s ∧ Raised e s) (h e) Q E') :
    Triple P (tryCatch x h) Q E' := by
  intro s hs hp
  have gx := hx s hs hp
  change Good (EStateM.tryCatch x h) s Q E'
  cases hxs : x s with
  | ok v s₁ =>
    have hrun : EStateM.tryCatch x h s = .ok v s₁ := by simp only [EStateM.tryCatch, hxs]
    refine ⟨hrun ▸ gx.sound_ok hxs, hrun ▸ gx.evolves_ok hxs, fun w s' h' => ?_,
      fun e s' h' => ?_, fun hco => ?_⟩
    · rw [hrun] at h'
      cases h'
      exact gx.ok v s₁ hxs
    · rw [hrun] at h'
      cases h'
    · simp only [EStateM.tryCatch, gx.erase hco, hxs, EStateM.Result.mapState_ok]
  | error e s₁ =>
    have gh := hh e s₁ (gx.sound_error hxs) (gx.error e s₁ hxs)
    have hrun : EStateM.tryCatch x h s = h e s₁ := by
      simp only [EStateM.tryCatch, hxs]
      rfl
    refine ⟨hrun ▸ gh.sound, hrun ▸ (gx.evolves_error hxs).trans gh.evolves,
      fun w s' h' => gh.ok w s' (hrun ▸ h'), fun e' s' h' => gh.error e' s' (hrun ▸ h'),
      fun hco => ?_⟩
    have hco₁ : (machine s₁).heap.HostsCoherent := hco.evolves (gx.evolves_error hxs).heap
    simp only [EStateM.tryCatch, gx.erase hco, hxs, EStateM.Result.mapState_error]
    exact gh.erase hco₁

theorem of_false : Triple (fun _ => False) x Q E := fun _ _ h => absurd h id

theorem throw_bind {e : Fault} (hE : ∀ s, Sound s → P s → E e s)
    (hr : ∀ s, Sound s → P s → Raised e s) :
    Triple P (MonadExcept.throw e >>= f : EStateM Fault σ β) R E :=
  (throw (Q := fun _ _ => False) hE hr).bind fun _ => of_false

theorem stable {I : σ → Prop} (hI : ∀ s s', Sound s' → (machine s).Evolves (machine s') → I s → I s')
    (hx : Triple P x Q E) :
    Triple (fun s => P s ∧ I s) x (fun v s => Q v s ∧ I s) (fun e s => E e s ∧ I s) := by
  intro s hs hp
  have g := hx s hs hp.1
  refine ⟨g.sound, g.evolves, fun v s' h => ⟨g.ok v s' h, ?_⟩,
    fun e s' h => ⟨⟨(g.error e s' h).1, ?_⟩, (g.error e s' h).2⟩, g.erase⟩
  · exact hI s s' (g.sound_ok h) (g.evolves_ok h) hp.2
  · exact hI s s' (g.sound_error h) (g.evolves_error h) hp.2

end Triple

namespace Safe

variable {x : EStateM Fault σ α} {f : α → EStateM Fault σ β}

theorem pure (v : α) : Safe (Pure.pure v : EStateM Fault σ α) := Triple.pure fun _ _ _ => trivial

theorem bind (hx : Safe x) (hf : ∀ v, Safe (f v)) : Safe (x >>= f) := Triple.bind hx hf

theorem map (hx : Safe x) (g : α → β) : Safe (g <$> x) := hx.bind fun v => pure (g v)

theorem ite {c : Prop} [Decidable c] {y : EStateM Fault σ α} (hx : c → Safe x) (hy : ¬ c → Safe y) :
    Safe (if c then x else y) :=
  Triple.ite hx hy

/-- Failing with a fault that raises nothing. -/
theorem throw {e : Fault} (he : ∀ a, e ≠ .raise a) : Safe (MonadExcept.throw e : EStateM Fault σ α) :=
  Triple.throw (fun _ _ _ => trivial) fun _ _ _ a h => absurd h (he a)

end Safe

/-! ### Loops -/

section Loops

variable {γ : Type}

theorem Triple.forIn_list {I : β → σ → Prop} {E : Fault → σ → Prop}
    {f : γ → β → EStateM Fault σ (ForInStep β)}
    (hf : ∀ x b, Triple (I b) (f x b) (fun r s => I r.value s) E) :
    ∀ (xs : List γ) (b : β), Triple (I b) (forIn xs b f) I E
  | [], b => by
    rw [List.forIn_nil]
    exact Triple.pure fun _ _ h => h
  | x :: xs, b => by
    rw [List.forIn_cons]
    refine (hf x b).bind fun r => ?_
    cases r with
    | done b' => exact Triple.pure fun _ _ h => h
    | yield b' => exact Triple.forIn_list hf xs b'

theorem Triple.forIn_array {I : β → σ → Prop} {E : Fault → σ → Prop}
    {f : γ → β → EStateM Fault σ (ForInStep β)}
    (hf : ∀ x b, Triple (I b) (f x b) (fun r s => I r.value s) E) (xs : Array γ) (b : β) :
    Triple (I b) (forIn xs b f) I E := by
  rw [← Array.forIn_toList]
  exact Triple.forIn_list hf xs.toList b

theorem Safe.forIn_list {f : γ → β → EStateM Fault σ (ForInStep β)} (hf : ∀ x b, Safe (f x b))
    (xs : List γ) (b : β) : Safe (forIn xs b f) :=
  Triple.forIn_list (I := fun _ _ => True) hf xs b

theorem Safe.forIn_array {f : γ → β → EStateM Fault σ (ForInStep β)} (hf : ∀ x b, Safe (f x b))
    (xs : Array γ) (b : β) : Safe (forIn xs b f) :=
  Triple.forIn_array (I := fun _ _ => True) hf xs b

theorem Safe.mapM_list {f : γ → EStateM Fault σ β} (hf : ∀ x, Safe (f x)) :
    ∀ xs : List γ, Safe (xs.mapM f)
  | [] => Safe.pure _
  | x :: xs => by
    rw [List.mapM_cons]
    exact (hf x).bind fun _ => (Safe.mapM_list hf xs).bind fun _ => Safe.pure _

theorem Safe.mapM_array {f : γ → EStateM Fault σ β} (hf : ∀ x, Safe (f x)) (xs : Array γ) :
    Safe (xs.mapM f) := by
  rw [Array.mapM_eq_mapM_toList]
  exact (Safe.mapM_list hf xs.toList).map _

theorem Safe.foldlM_list {f : β → γ → EStateM Fault σ β} (hf : ∀ b x, Safe (f b x)) :
    ∀ (xs : List γ) (b : β), Safe (xs.foldlM f b)
  | [], _ => Safe.pure _
  | x :: xs, b => by
    rw [List.foldlM_cons]
    exact (hf b x).bind fun b' => Safe.foldlM_list hf xs b'

theorem Safe.foldlM_array {f : β → γ → EStateM Fault σ β} (hf : ∀ b x, Safe (f b x))
    (xs : Array γ) (b : β) : Safe (xs.foldlM f b) := by
  rw [← Array.foldlM_toList]
  exact Safe.foldlM_list hf xs.toList b

end Loops

/-! ### Machine computations -/

namespace Triple

variable {P : Machine → Prop} {Q : α → Machine → Prop} {E : Fault → Machine → Prop}

theorem get_bind {f : Machine → Vm α} (hf : ∀ m₀, Triple (fun m => P m ∧ m = m₀) (f m₀) Q E)
    (hinv : ∀ m, f m.erase = f m) : Triple P (get >>= f) Q E := by
  intro m hs hp
  have g := hf m m hs ⟨hp, rfl⟩
  refine ⟨g.sound, g.evolves, g.ok, g.error, fun hco => ?_⟩
  show f m.erase m.erase = (f m m).mapState Machine.erase
  rw [hinv]
  exact g.erase hco

theorem modify {g : Machine → Machine} {Q : Unit → Machine → Prop}
    (hg : ∀ m, m.Sound → P m → (g m).Sound ∧ m.Evolves (g m) ∧ Q () (g m))
    (hinv : ∀ m, g m.erase = (g m).erase) : Triple P (modify g : Vm Unit) Q E := by
  intro m hs hp
  obtain ⟨hs', he, hq⟩ := hg m hs hp
  refine ⟨hs', he, fun _ _ h => ?_, (fun _ _ h => by cases h), fun _ => ?_⟩
  · cases h
    exact hq
  · show EStateM.Result.ok () (g m.erase) = .ok () (g m).erase
    rw [hinv]

theorem modifyGet {g : Machine → α × Machine}
    (hg : ∀ m, m.Sound → P m → (g m).2.Sound ∧ m.Evolves (g m).2 ∧ Q (g m).1 (g m).2)
    (hinv : ∀ m, g m.erase = ((g m).1, (g m).2.erase)) :
    Triple P (modifyGet g : Vm α) Q E := by
  intro m hs hp
  obtain ⟨hs', he, hq⟩ := hg m hs hp
  refine ⟨hs', he, fun _ _ h => ?_, (fun _ _ h => by cases h), fun _ => ?_⟩
  · cases h
    exact hq
  · show EStateM.Result.ok (g m.erase).1 (g m.erase).2 = .ok (g m).1 (g m).2.erase
    rw [hinv]

end Triple

/-! ### Activations -/

namespace Triple

variable {P : Active → Prop} {Q : α → Active → Prop} {E : Fault → Active → Prop}

theorem reads {g : Frame → α} (h : ∀ s, s.Sound → P s → Q (g s.frame) s) :
    Triple P (Act.reads g) Q E := by
  intro s hs hp
  refine ⟨hs, .refl _, fun _ _ h' => ?_, (fun _ _ h' => by cases h'), fun _ => rfl⟩
  cases h'
  exact h s hs hp

theorem readsMachine {g : Machine → α} (hinv : ∀ m, g m.erase = g m)
    (h : ∀ s, s.Sound → P s → Q (g s.machine) s) : Triple P (Act.readsMachine g) Q E := by
  intro s hs hp
  refine ⟨hs, .refl _, fun _ _ h' => ?_, (fun _ _ h' => by cases h'), fun _ => ?_⟩
  · cases h'
    exact h s hs hp
  · show EStateM.Result.ok (g s.machine.erase) s.erase = .ok (g s.machine) s.erase
    rw [hinv]

theorem modifyFrame {g : Frame → Frame} {Q : Unit → Active → Prop}
    (h : ∀ s, s.Sound → P s → (g s.frame).Sound s.machine.heap ∧ Q () ⟨s.machine, g s.frame⟩) :
    Triple P (Act.modifyFrame g) Q E := by
  rintro ⟨m, f⟩ hs hp
  obtain ⟨hf, hq⟩ := h ⟨m, f⟩ hs hp
  exact ⟨⟨hs.machine, hf⟩, .refl _, (fun _ _ h' => by cases h'; exact hq),
    (fun _ _ h' => by cases h'), fun _ => rfl⟩

theorem modifyMachine {g : Machine → Machine} {Q : Unit → Active → Prop}
    (h : ∀ s, s.Sound → P s → (g s.machine).Sound ∧ s.machine.Evolves (g s.machine) ∧
      Q () ⟨g s.machine, s.frame⟩)
    (hinv : ∀ m, g m.erase = (g m).erase) : Triple P (Act.modifyMachine g) Q E := by
  rintro ⟨m, f⟩ hs hp
  obtain ⟨hm, he, hq⟩ := h ⟨m, f⟩ hs hp
  refine ⟨⟨hm, hs.frame.evolves he.heap⟩, he, (fun _ _ h' => by cases h'; exact hq),
    (fun _ _ h' => by cases h'), fun _ => ?_⟩
  show EStateM.Result.ok () (⟨g m.erase, f⟩ : Active) = .ok () ⟨(g m).erase, f⟩
  rw [hinv]

theorem vm {x : Vm α} {P : Machine → Prop} {Q : α → Machine → Prop} {E : Fault → Machine → Prop}
    (hx : Triple P x Q E) (R : Frame → Prop) :
    Triple (fun s : Active => P s.machine ∧ R s.frame) (Act.vm x)
      (fun v s => Q v s.machine ∧ R s.frame) (fun e s => E e s.machine ∧ R s.frame) := by
  rintro ⟨m, f⟩ hs ⟨hp, hr⟩
  have g := hx m hs.machine hp
  have hf : ∀ m', m.Evolves m' → f.Sound m'.heap := fun m' he => hs.frame.evolves he.heap
  cases hxm : x m with
  | ok v m' =>
    have hrun : Act.vm x ⟨m, f⟩ = .ok v ⟨m', f⟩ := by simp only [Act.vm, hxm]
    refine ⟨hrun ▸ ⟨g.sound_ok hxm, hf m' (g.evolves_ok hxm)⟩, hrun ▸ g.evolves_ok hxm,
      fun w s' h => ?_, fun e s' h => ?_, fun hco => ?_⟩
    · rw [hrun] at h
      cases h
      exact ⟨g.ok v m' hxm, hr⟩
    · rw [hrun] at h
      cases h
    · have hx' : x m.erase = .ok v m'.erase := by
        have h := g.erase hco
        rw [hxm] at h
        exact h
      rw [hrun]
      change Act.vm x ⟨m.erase, f⟩ = .ok v ⟨m'.erase, f⟩
      simp only [Act.vm, hx']
  | error e m' =>
    have hrun : Act.vm x ⟨m, f⟩ = .error e ⟨m', f⟩ := by simp only [Act.vm, hxm]
    refine ⟨hrun ▸ ⟨g.sound_error hxm, hf m' (g.evolves_error hxm)⟩, hrun ▸ g.evolves_error hxm,
      fun w s' h => ?_, fun e' s' h => ?_, fun hco => ?_⟩
    · rw [hrun] at h
      cases h
    · rw [hrun] at h
      cases h
      exact ⟨⟨(g.error e m' hxm).1, hr⟩, (g.error e m' hxm).2⟩
    · have hx' : x m.erase = .error e m'.erase := by
        have h := g.erase hco
        rw [hxm] at h
        exact h
      rw [hrun]
      change Act.vm x ⟨m.erase, f⟩ = .error e ⟨m'.erase, f⟩
      simp only [Act.vm, hx']

end Triple

end StackVm
