import StackVm.Proofs.Engine.Running

/-! Resuming a generator keeps the invariants.  The refusals come first and raise new
exceptions: a running generator is refused, a finished one raises its exhaustion signal or
rethrows what is thrown in, and a generator that has not started refuses a value or finishes on
an exception thrown in.  Past them the parked frame is taken out, the activation counted, and
the frame (or a fresh one) run with the generator marked running; the mark is cleared on the
way out and the outcome parks the frame the body stopped in or finishes the generator.

Along the way the generator at its address is known exactly: placing objects and changing
ordinary ones leave it (`Heap.Lasting`), and while it is marked running every run inside leaves
it as it is.  The whole stretch from the mark to its clearing is one step of the machine
(`spec_runMarked`). -/

namespace StackVm

open EngineState

variable {σ α β : Type} [EngineState σ]

theorem Triple.and {P₁ P₂ : σ → Prop} {x : EStateM Fault σ α} {Q₁ Q₂ : α → σ → Prop}
    {E E₂ : Fault → σ → Prop} (h₁ : Triple P₁ x Q₁ E) (h₂ : Triple P₂ x Q₂ E₂) :
    Triple (fun s => P₁ s ∧ P₂ s) x (fun v s => Q₁ v s ∧ Q₂ v s) E := by
  intro s hs hp
  have g₁ := h₁ s hs hp.1
  have g₂ := h₂ s hs hp.2
  exact ⟨g₁.sound, g₁.evolves, fun v s' h => ⟨g₁.ok v s' h, g₂.ok v s' h⟩, g₁.error, g₁.erase⟩

theorem Good.of_step {x y : EStateM Fault σ α} {s s₁ : σ} {Q : α → σ → Prop}
    {E : Fault → σ → Prop} (g : Good y s₁ Q E) (he : (machine s).Evolves (machine s₁))
    (hrun : x s = y s₁)
    (herase : (machine s).heap.HostsCoherent → x (EngineState.erase s) = y (EngineState.erase s₁)) :
    Good x s Q E := by
  refine ⟨?_, ?_, fun v s' h => g.ok v s' (hrun ▸ h), fun e s' h => g.error e s' (hrun ▸ h),
    fun hco => ?_⟩
  · rw [hrun]
    exact g.sound
  · rw [hrun]
    exact he.trans g.evolves
  · rw [herase hco, hrun]
    exact g.erase (hco.evolves he.heap)

theorem Triple.keepExc {P : σ → Prop} {x : EStateM Fault σ α} {Q : α → σ → Prop}
    {E : Fault → σ → Prop} (hx : Triple P x Q E) (a : Addr) :
    Triple (fun s => P s ∧ (machine s).heap.IsExc a) x
      (fun v s => Q v s ∧ (machine s).heap.IsExc a) E :=
  (Triple.stable (fun _ _ _ he h => he.heap.isExc h) hx).mono (fun _ h => h) (fun _ _ h => h)
    fun _ _ h => h.1

theorem Triple.keepRaised {P : σ → Prop} {x : EStateM Fault σ α} {Q : α → σ → Prop}
    {E : Fault → σ → Prop} (hx : Triple P x Q E) (e : Fault) :
    Triple (fun s => P s ∧ Raised e s) x (fun v s => Q v s ∧ Raised e s)
      (fun e' s => E e' s ∧ Raised e s) :=
  Triple.stable (fun _ _ _ he h a ha => he.heap.isExc (h a ha)) hx

theorem Triple.of_pre {P R : σ → Prop} {x : EStateM Fault σ α} {Q : α → σ → Prop}
    {E : Fault → σ → Prop} (hP : ∀ s, Sound s → P s → R s) (hx : Triple R x Q E) :
    Triple P x Q E :=
  fun s hs hp => hx s hs (hP s hs hp)

theorem Triple.of_fact {P : σ → Prop} {F : Prop} {x : EStateM Fault σ α} {Q : α → σ → Prop}
    {E : Fault → σ → Prop} (hF : ∀ s, Sound s → P s → F) (hx : F → Triple P x Q E) :
    Triple P x Q E :=
  fun s hs hp => hx (hF s hs hp) s hs hp

theorem Triple.catching {P : σ → Prop} {x : EStateM Fault σ α} {Q : α → σ → Prop}
    {E F : Fault → σ → Prop} (hx : Triple P x Q E) :
    Triple P (MonadExcept.tryCatch (Except.ok <$> x) fun e => Pure.pure (Except.error e))
      (fun r s => (∀ v, r = .ok v → Q v s) ∧ ∀ e, r = .error e → E e s ∧ Raised e s) F := by
  refine Triple.tryCatch (E := E) (hx.map.mono (fun _ h => h) (fun r s h => ?_) fun _ _ h => h)
    fun e => Triple.pure fun s _ h => ⟨(fun _ hv => by cases hv), fun e' he => by cases he; exact h⟩
  obtain ⟨w, rfl, hq⟩ := h
  exact ⟨fun v hv => by cases hv; exact hq, fun _ he => by cases he⟩

namespace Heap

/-- A fact about the store that placing an object and changing an ordinary one keep. -/
structure Lasting (I : Heap → Prop) : Prop where
  alloc : ∀ h o, I h → I (h.alloc o).1
  plain : ∀ h a F, Obj.Plain F → I h → I (h.modify a F)

theorem lasting_get? {o : Obj} (ho : ¬ o.Ordinary) (b : Addr) :
    Lasting fun h => h.get? b = some o where
  alloc _ _ hb := get?_alloc_of_get? hb
  plain h a F hF hb := by
    rw [get?_modify_eq]
    split
    · rw [hb, Option.map_some, (hF.apply_eq ho).2 rfl]
    · exact hb

end Heap

namespace Vm

variable {k : Kit} {P : Machine → Prop} {I : Heap → Prop}

/-! ### Facts that last -/

theorem spec_enterActivation_lasting (hI : Heap.Lasting I) :
    Triple (fun m => I m.heap) enterActivation (fun _ m => I m.heap) (fun _ m => I m.heap) := by
  intro m hs hp
  by_cases hd : m.config.maxDepth ≤ m.depth
  · have g := spec_raise (α := Unit) (P := fun m => I m.heap) (Q := fun _ m => I m.heap)
      (E := fun _ m => I m.heap) Raise.recursion (fun m _ hp => hI.alloc _ _ hp) m hs hp
    exact g.of_eq (enterActivation_of_le hd) (enterActivation_of_le (m := m.erase) hd)
  · have hlt : m.depth < m.config.maxDepth := Nat.lt_of_not_le hd
    have g : Good (modify fun m : Machine => { m with depth := m.depth + 1 }) m
        (fun _ m => I m.heap) (fun _ m => I m.heap) :=
      Triple.modify (P := fun m => I m.heap) (g := fun m : Machine => { m with depth := m.depth + 1 })
        (fun _ hs hp => ⟨hs.of_evolves ⟨.refl _, rfl, rfl⟩ hs.heap hs.context rfl,
          ⟨.refl _, rfl, rfl⟩, hp⟩) (fun _ => rfl) m hs hp
    exact g.of_eq (enterActivation_of_lt hlt) (enterActivation_of_lt (m := m.erase) hlt)

theorem spec_leaveActivation_lasting {E : Fault → Machine → Prop} :
    Triple (fun m => I m.heap) leaveActivation (fun _ m => I m.heap) E :=
  Triple.modify (fun _ hs hp => ⟨hs.of_evolves ⟨.refl _, rfl, rfl⟩ hs.heap hs.context rfl,
    ⟨.refl _, rfl, rfl⟩, hp⟩) fun _ => rfl

theorem spec_newFrame_lasting (hI : Heap.Lasting I) (fnAddr : Addr) (args : Array Value) :
    Triple (fun m => I m.heap) (newFrame fnAddr args) (fun _ m => I m.heap) (fun _ m => I m.heap) := by
  unfold newFrame
  refine ((spec_function fnAddr).mono (fun _ h => h) (fun _ _ h => h.1) fun _ _ h => h).bind
    fun fn => ?_
  refine ((spec_codeObj fn.code).mono (fun _ h => h) (fun _ _ h => h.1) fun _ _ h => h).bind
    fun c => ?_
  dsimp only
  refine Triple.ite (fun _ => (spec_internal (P := fun m => I m.heap) (Q := fun _ m => I m.heap) _
    fun _ _ hp => hp).bind fun _ => ?_) fun _ => ?_
  all_goals
    refine (Triple.forIn_array (I := fun _ (m : Machine) => I m.heap) (fun _ _ => ?_) _ _).bind
      fun cells => ?_
    · exact (spec_alloc ⟨(fun _ h => by cases h), (fun _ h => by cases h)⟩ (fun _ h => by cases h)
        (fun _ _ _ _ hb => by cases hb) fun _ _ hp => hI.alloc _ _ hp).bind fun _ =>
          Triple.pure fun _ _ h => h
    refine (Triple.forIn_array (I := fun _ (m : Machine) => I m.heap) (fun _ _ => ?_) _ _).bind
      fun _ => Triple.pure fun _ _ h => h
    split
    · exact (spec_modifyObj (fun _ _ _ o _ => .of_plain (Obj.plain_mapCell _) o)
        (fun _ hs _ => hs.modify_plain (Obj.plain_mapCell _))
        fun _ _ hp => hI.plain _ _ _ (Obj.plain_mapCell _) hp).bind fun _ =>
          Triple.pure fun _ _ h => h
    · exact Triple.pure fun _ _ h => h

theorem spec_modifyObj_fixes {a b : Addr} {F : Obj → Obj} {o : Obj} (hx : Safe (modifyObj a F))
    (hF : F o = o) :
    Triple (fun m => m.heap.get? b = some o) (modifyObj a F) (fun _ m => m.heap.get? b = some o) := by
  intro m hs hp
  have g := hx m hs trivial
  refine ⟨g.sound, g.evolves, fun _ m' h => ?_, fun e s h => ⟨trivial, (g.error e s h).2⟩, g.erase⟩
  have hrun : modifyObj a F m = .ok () { m with heap := m.heap.modify a F } := rfl
  rw [hrun] at h
  cases h
  show (m.heap.modify a F).get? b = some o
  rw [Heap.get?_modify_eq]
  split
  · rw [hp, Option.map_some, hF]
  · exact hp

/-! ### Reading and changing a generator -/

theorem spec_generator (g : Addr) :
    Triple P (generator g) (fun G m => P m ∧ m.heap.get? g = some (.generator G))
      (fun _ m => P m) := by
  unfold generator
  refine (spec_obj g).bind fun o => ?_
  split
  · exact Triple.pure fun _ _ hp => hp
  · exact spec_internal _ fun _ _ hp => hp.1

variable {g : Addr} {G : Generator}

/-- Changing a generator into a later state of itself that is coherent, with a sound parked
frame. -/
theorem spec_modifyGenerator {F : Generator → Generator} {E : Fault → Machine → Prop}
    (hst : G.Stays (F G)) (hco : (F G).Coherent) :
    Triple (fun m => m.heap.get? g = some (.generator G) ∧
        ∀ f, (F G).frame = some f → f.Sound m.heap)
      (modifyGenerator g F) (fun _ m => m.heap.get? g = some (.generator (F G))) E :=
  spec_modifyObj
    (fun _ _ hp o ho => by
      rw [hp.1] at ho
      cases ho
      exact .of_generator hst)
    (fun _ hs hp => hs.modify_generator hp.1 hst hco hp.2)
    fun _ _ hp => Heap.get?_modify_generator hp.1 F

theorem spec_finish {E : Fault → Machine → Prop} (hr : G.running = false) :
    Triple (fun m => m.heap.get? g = some (.generator G)) (modifyGenerator g Generator.finish)
      (fun _ m => m.heap.get? g = some (.generator G.finish)) E :=
  (spec_modifyGenerator (Generator.stays_finish hr) (Generator.coherent_finish G)).mono
    (fun _ h => ⟨h, fun _ hf => by cases hf⟩) (fun _ _ h => h) fun _ _ h => h

/-! ### Refusals -/

variable {Q : α → Machine → Prop}

theorem spec_raiseKind (t : ExcType) (msg : String) (kind : ErrorKind) :
    Triple P (raiseKind t msg kind : Vm α) Q := by
  unfold raiseKind
  refine Triple.bind (Q := fun a m => m.heap.IsExc a)
    (spec_newExc (fun _ _ _ b hb => by cases hb) fun _ _ _ => ⟨_, Heap.get?_alloc _ _⟩)
    fun a => ?_
  exact Triple.throw (fun _ _ _ => trivial) fun _ _ h a' ha => by
    cases ha
    exact h

theorem spec_alreadyExecuting (kind : GeneratorKind) :
    Triple P (alreadyExecuting kind : Vm α) Q :=
  spec_raiseKind _ _ _

theorem spec_exhaustedSignal (kind : GeneratorKind) :
    Triple P (exhaustedSignal kind : Vm α) Q := by
  cases kind <;> exact spec_raise _ fun _ _ _ => trivial

/-- The exception thrown into a generator that is not suspended is raised, once the generator is
finished. -/
theorem spec_throwUnstarted (hr : G.running = false) (fnAddr exc : Addr) :
    Triple (fun m => m.heap.get? g = some (.generator G) ∧ m.heap.IsExc exc)
      (throwUnstarted g fnAddr exc : Vm α) Q := by
  unfold throwUnstarted
  refine ((spec_function fnAddr).mono (fun _ h => h) (fun _ _ h => h.1) fun _ _ _ => trivial).bind
    fun fn => ?_
  refine ((spec_codeObj fn.code).mono (fun _ h => h) (fun _ _ h => h.1) fun _ _ _ => trivial).bind
    fun c => ?_
  refine ((spec_modifyObj_fixes (safe_pushTrace _ _) rfl).and
    ((safe_pushTrace exc _).keepExc exc)).bind fun _ => ?_
  refine ((spec_finish hr).keepExc exc).bind fun _ => ?_
  exact Triple.throw (fun _ _ _ => trivial) fun _ _ h a ha => by
    cases ha
    exact h.2

/-- A completion signal escaping a body is wrapped in a new `RuntimeError` caused by it, and
every other failure passes as it is. -/
theorem spec_wrapEscaping (kind : GeneratorKind) (err : Fault) :
    Triple (Raised err) (wrapEscaping kind err) (fun e m => Raised e m) := by
  unfold wrapEscaping
  split
  · next a =>
    refine Triple.of_pre (R := fun m => m.heap.IsExc a) (fun _ _ h => h a rfl) ?_
    refine ((spec_exc a).mono (fun _ h => h) (fun _ _ h => h.1) fun _ _ _ => trivial).bind
      fun e => ?_
    dsimp only
    split
    · refine Triple.bind (Q := fun w m => m.heap.IsExc w ∧ m.heap.IsExc a)
        (spec_newExc (fun _ _ h b hb => ?_) fun _ _ h => ?_) fun w => ?_
      · simp only [Obj.links, Option.toList_some, Option.toList_none, List.append_nil,
          List.mem_singleton] at hb
        rw [hb]
        exact h
      · obtain ⟨e', he'⟩ := h
        exact ⟨⟨_, Heap.get?_alloc _ _⟩, ⟨e', Heap.get?_alloc_of_get? he'⟩⟩
      refine (((spec_setCause w (some a)).keepExc w).mono
        (fun _ h => ⟨fun c hc => by cases hc; exact h.2, h.1⟩) (fun _ _ h => h.2)
        (fun _ _ h => h)).bind fun _ => Triple.pure fun _ _ h a' ha => ?_
      cases ha
      exact h
    · exact Triple.pure fun _ _ h a' ha => by
        cases ha
        exact h
  · exact Triple.pure fun _ _ h => h

theorem spec_excWithPayload (t : ExcType) (payload : Value) :
    Triple P (excWithPayload t payload) (fun a m => m.heap.IsExc a) :=
  Triple.get_bind (fun _ => spec_newExc (fun _ _ _ b hb => by cases hb)
    fun _ _ _ => ⟨_, Heap.get?_alloc _ _⟩) fun _ => rfl

theorem spec_completionSignal (kind : GeneratorKind) (v : Value) :
    Triple P (completionSignal kind v : Vm α) Q := by
  unfold completionSignal
  split
  · exact spec_raise _ fun _ _ _ => trivial
  · exact (spec_excWithPayload _ _).bind fun a => Triple.throw (fun _ _ _ => trivial)
      fun _ _ h a' ha => by
        cases ha
        exact h

theorem spec_park {E : Fault → Machine → Prop} (hs : G.started = true) (hr : G.running = false)
    (hf : G.finished = false) (f : Frame) :
    Triple (fun m => m.heap.get? g = some (.generator G) ∧ f.Sound m.heap)
      (modifyGenerator g fun st => { st with frame := some f })
      (fun _ m => m.heap.get? g = some (.generator { G with frame := some f })) E :=
  (spec_modifyGenerator (Generator.stays_frame hr _) (Generator.coherent_park hs hr hf f)).mono
    (fun _ h => ⟨h.1, fun f' hf' => by cases hf'; exact h.2⟩) (fun _ _ h => h) fun _ _ h => h

/-! ### The run of a body -/

/-- The stretch of a resumption from marking the generator running to clearing the mark.  The
body runs on its frame while the generator is marked, so every run inside leaves the generator
as it is; the generator ends started and no longer running, the frame the body stopped in is
sound, and a failure of the body raises an exception of the store. -/
theorem spec_runMarked (hk : k.Sound) (hr : G.running = false) (hf : G.finished = false)
    (hfr : G.frame = none) (frame : Frame) (resume : Resume)
    {K : Except Fault (FrameExit × Frame) → Vm β} {Q : β → Machine → Prop}
    (hK : ∀ r, Triple (fun m => m.heap.get? g = some (.generator { G with started := true }) ∧
      (∀ v, r = .ok v → v.2.Sound m.heap) ∧ ∀ e, r = .error e → Raised e m) (K r) Q) :
    Triple (fun m => m.heap.get? g = some (.generator G) ∧ frame.Sound m.heap ∧
        ∀ exc, resume = .throw exc → m.heap.IsExc exc)
      (do
        modifyGenerator g fun st => { st with running := true, started := true }
        let result ← tryCatch (Except.ok <$> runFrame k frame resume) fun e => pure (.error e)
        leaveActivation
        modifyGenerator g fun st => { st with running := false }
        K result) Q := by
  intro m hs hp
  obtain ⟨hg, hframe, hexc⟩ := hp
  have hst₁ := Generator.stays_mark hr
  have hs₁ := hs.modify_generator (f := fun st => { st with running := true, started := true }) hg
    hst₁ (Generator.coherent_mark hf hfr)
    fun f h => absurd (h.symm.trans hfr) (Option.some_ne_none f)
  have he₁ : m.Evolves { m with heap := m.heap.modify g (Obj.mapGenerator
      fun st => { st with running := true, started := true }) } :=
    .ofHeap (.modify _ _ fun o ho => by
      rw [hg] at ho
      cases ho
      exact .of_generator hst₁)
  have hg₁ := Heap.get?_modify_generator hg fun st => { st with running := true, started := true }
  have gy := (Triple.catching (F := fun _ _ => True) (spec_runFrame hk frame resume)) _ hs₁
    ⟨hframe.modify_generator hg, fun exc h => (Heap.isExc_modify_generator hg).2 (hexc exc h)⟩
  obtain ⟨r, m₂, hym⟩ := tryCatch_pure_total (Except.ok <$> runFrame k frame resume) Except.error
    { m with heap := m.heap.modify g (Obj.mapGenerator
      fun st => { st with running := true, started := true }) }
  have he₂ := gy.evolves_ok hym
  have hs₂ := gy.sound_ok hym
  obtain ⟨hframes₂, hraised₂⟩ := gy.ok r m₂ hym
  have hg₂ : m₂.heap.get? g = some (.generator { G with running := true, started := true }) := by
    obtain ⟨G', hG', hst⟩ := he₂.heap.generator hg₁
    rw [hst.running rfl] at hG'
    exact hG'
  have hs₂' : ({ m₂ with depth := m₂.depth - 1 } : Machine).Sound :=
    hs₂.of_evolves ⟨.refl _, rfl, rfl⟩ hs₂.heap hs₂.context rfl
  have hs₃ := hs₂'.modify_generator_any (F := fun st => { st with running := false })
    (G := { G with running := true, started := true }) hg₂
    (Generator.coherent_mark hf hfr).unmark
    fun f h => absurd (h.symm.trans hfr) (Option.some_ne_none f)
  have hmark := Generator.unmark_mark hr
  have he₃ := Heap.Evolves.modify_generator_of (F := fun st => { st with running := false })
    (he₁.heap.trans he₂.heap) hg hg₂ (by rw [hmark]; exact Generator.stays_start hr)
  have hg₃ := Heap.get?_modify_generator hg₂ fun st => { st with running := false }
  rw [hmark] at hg₃
  refine Good.of_step (hK r _ hs₃ ⟨hg₃, fun v h => (hframes₂ v h).modify_generator hg₂,
      fun e h a ha => (Heap.isExc_modify_generator hg₂).2 ((hraised₂ e h).2 a ha)⟩)
    ⟨he₃, (he₁.trans he₂).builtins, (he₁.trans he₂).profiles⟩ ?_ fun hco => ?_
  · rw [modifyGenerator_bind_run]
    exact EStateM.run_bind_of_ok hym
  · have hyme := gy.erase (hco.evolves he₁.heap)
    rw [hym, EStateM.Result.mapState_ok] at hyme
    rw [modifyGenerator_bind_run]
    exact EStateM.run_bind_of_ok hyme

/-! ### Resuming -/

/-- Resuming a generator keeps the invariants when an exception thrown in is one of the store,
and a resumption that returns leaves the generator not running. -/
theorem spec_resumeGenerator (hk : k.Sound) (g : Addr) (resume : Resume) :
    Triple (fun m => ∀ exc, resume = .throw exc → m.heap.IsExc exc) (resumeGenerator k g resume)
      (fun _ m => ∃ G : Generator, m.heap.get? g = some (.generator G) ∧ G.running = false) := by
  unfold resumeGenerator
  refine ((spec_generator g).mono (fun _ h => h) (fun _ _ h => h) fun _ _ _ => trivial).bind
    fun st => ?_
  rw [pure_bind]
  dsimp -zeta only
  extract_lets runBody enter checkStart checkDone
  refine Triple.of_fact (fun _ hs hp => hs.heap.generators g st hp.2) fun hco => ?_
  refine Triple.ite (fun _ =>
    (spec_alreadyExecuting (Q := fun _ _ => False) st.kind).bind fun _ => Triple.of_false)
    fun hr => ?_
  have hr : st.running = false := Bool.eq_false_iff.2 hr
  have hbody : st.finished = false → ∀ p : Frame × Resume, Triple
      (fun m => m.heap.get? g = some (.generator { st with frame := none }) ∧ p.1.Sound m.heap ∧
        ∀ exc, p.2 = .throw exc → m.heap.IsExc exc)
      (runBody p)
      (fun _ m => ∃ G : Generator, m.heap.get? g = some (.generator G) ∧ G.running = false) := by
    intro hf p
    dsimp only [runBody]
    refine spec_runMarked (G := { st with frame := none }) hk hr hf rfl p.1 p.2 fun r => ?_
    have hst : ∀ {E : Fault → Machine → Prop}, Triple (fun m => m.heap.get? g = some (.generator
        { ({ st with frame := none } : Generator) with started := true })) (modifyGenerator g Generator.finish)
        (fun _ m => ∃ G : Generator, m.heap.get? g = some (.generator G) ∧ G.running = false) E :=
      (spec_finish (G := { ({ st with frame := none } : Generator) with started := true }) hr).mono
        (fun _ h => h) (fun _ _ h => ⟨_, h, rfl⟩) fun _ _ h => h
    split
    · next f =>
      exact ((spec_park (G := { ({ st with frame := none } : Generator) with started := true }) rfl hr
        hf f).mono (fun _ h => ⟨h.1, h.2.1 _ rfl⟩) (fun _ _ h => h) fun _ _ h => h).bind
          fun _ => Triple.pure fun _ _ h => ⟨_, h, hr⟩
    · exact (hst.mono (fun _ h => h.1) (fun _ _ h => h) fun _ _ h => h).bind
        fun _ => Triple.pure fun _ _ h => h
    · next e =>
      refine (((hst (E := fun _ _ => True)).keepRaised e).mono (fun _ h => ⟨h.1, h.2.2 e rfl⟩)
        (fun _ _ h => h.2) fun _ _ _ => trivial).bind fun _ => ?_
      exact (spec_wrapEscaping _ e).bind fun e' =>
        Triple.throw (fun _ _ _ => trivial) fun _ _ h => h
  have henter : st.finished = false → Triple
      (fun m => (∀ exc, resume = .throw exc → m.heap.IsExc exc) ∧
        m.heap.get? g = some (.generator st))
      (enter ())
      (fun _ m => ∃ G : Generator, m.heap.get? g = some (.generator G) ∧ G.running = false) := by
    intro hf
    dsimp only [enter]
    have hR : ∀ m m' : Machine, m'.Sound → m.Evolves m' →
        ((∀ exc, resume = .throw exc → m.heap.IsExc exc) ∧
          ∀ f, st.frame = some f → f.Sound m.heap) →
        ((∀ exc, resume = .throw exc → m'.heap.IsExc exc) ∧
          ∀ f, st.frame = some f → f.Sound m'.heap) :=
      fun _ _ _ he h => ⟨fun exc hx => he.heap.isExc (h.1 exc hx),
        fun f hf => (h.2 f hf).evolves he.heap⟩
    refine Triple.of_pre (R := fun m => (m.heap.get? g = some (.generator st) ∧
        ∀ f, ({ st with frame := none } : Generator).frame = some f → f.Sound m.heap) ∧
        (∀ exc, resume = .throw exc → m.heap.IsExc exc) ∧ ∀ f, st.frame = some f → f.Sound m.heap)
      (fun _ hs hp => ⟨⟨hp.2, fun _ h => by cases h⟩, hp.1, fun f h => hs.heap.parked g st f hp.2 h⟩) ?_
    refine ((Triple.stable hR (spec_modifyGenerator (F := fun st => { st with frame := none })
      (E := fun _ _ => True) (Generator.stays_frame hr none)
      (Generator.coherent_of_idle hr hf rfl))).mono (fun _ h => h) (fun _ _ h => h)
        fun _ _ _ => trivial).bind fun _ => ?_
    refine (Triple.tryCatch (Triple.stable hR (spec_enterActivation_lasting
      (Heap.lasting_get? (o := .generator { st with frame := none }) (fun h => h) g)))
        fun e => ?_).bind fun _ => ?_
    · refine (((spec_modifyGenerator (F := fun x => { x with frame := st.frame })
        (G := { st with frame := none }) (E := fun _ _ => True)
        (Generator.stays_frame (G := { st with frame := none }) hr _)
        hco).keepRaised e).mono (fun _ h => ⟨⟨h.1.1, fun f hf => h.1.2.2 f hf⟩, h.2⟩)
          (fun _ _ h => h) fun _ _ _ => trivial).bind fun _ => ?_
      exact Triple.throw (fun _ _ _ => trivial) fun _ _ h => h.2
    split
    · next f hpk =>
      rw [pure_bind]
      exact (hbody hf (f, resume)).mono (fun _ h => ⟨h.1, h.2.2 f hpk, h.2.1⟩) (fun _ _ h => h)
        fun _ _ h => h
    · refine (Triple.tryCatch (((spec_newFrame_lasting (Heap.lasting_get?
        (o := .generator { st with frame := none }) (fun h => h) g) st.function st.baseArgs).and
          (spec_newFrame st.function st.baseArgs)).mono (fun _ h => ⟨h.1, trivial⟩)
            (fun _ _ h => h) fun _ _ h => h) fun e => ?_).bind fun f => ?_
      · refine (((spec_leaveActivation_lasting (E := fun _ _ => True)
          (I := fun h => h.get? g = some (.generator { st with frame := none }))).keepRaised e).mono
            (fun _ h => h) (fun _ _ h => h) fun _ _ _ => trivial).bind fun _ => ?_
        refine (((spec_finish (G := { st with frame := none }) (E := fun _ _ => True) hr).keepRaised
          e).mono
          (fun _ h => h) (fun _ _ h => h) fun _ _ _ => trivial).bind fun _ => ?_
        exact Triple.throw (fun _ _ _ => trivial) fun _ _ h => h.2
      rw [pure_bind]
      exact (hbody hf (f, .start)).mono (fun _ h => ⟨h.1, h.2.1, fun _ h => by cases h⟩)
        (fun _ _ h => h) fun _ _ h => h
  have hstart : st.finished = false → Triple
      (fun m => (∀ exc, resume = .throw exc → m.heap.IsExc exc) ∧
        m.heap.get? g = some (.generator st))
      (checkStart ())
      (fun _ m => ∃ G : Generator, m.heap.get? g = some (.generator G) ∧ G.running = false) := by
    intro hf
    dsimp only [checkStart]
    refine Triple.ite (fun _ => ?_) fun _ => henter hf
    split
    · exact Triple.ite (fun _ => (spec_raise (Q := fun _ _ => False) _ fun _ _ _ => trivial).bind
        fun _ => Triple.of_false) fun _ => henter hf
    · next exc =>
      exact ((spec_throwUnstarted (Q := fun _ _ => False) hr st.function exc).mono
        (fun _ h => ⟨h.2, h.1 exc rfl⟩) (fun _ _ h => h) fun _ _ h => h).bind
          fun _ => Triple.of_false
    · exact henter hf
  dsimp only [checkDone]
  refine Triple.ite (fun _ => ?_) fun hf => hstart (Bool.eq_false_iff.2 hf)
  split
  · next exc =>
    refine Triple.ite (fun _ => ?_) fun _ =>
      (spec_exhaustedSignal (Q := fun _ _ => False) _).bind fun _ => Triple.of_false
    exact ((spec_throwUnstarted (Q := fun _ _ => False) hr st.function exc).mono
      (fun _ h => ⟨h.2, h.1 exc rfl⟩) (fun _ _ h => h) fun _ _ h => h).bind
        fun _ => Triple.of_false
  · exact (spec_exhaustedSignal (Q := fun _ _ => False) _).bind fun _ => Triple.of_false

end Vm

end StackVm
