import StackVm.Proofs.Engine.Sessions

/-! The life of a generator.  A generator is made not started; its first resumption starts the
body, a yield parks the body's frame, and a return or an escaping error finishes it.  Four facts
tie its flags together (`Generator.Coherent`): a running generator has started, is not finished
and holds no frame; a finished one is not running and holds no frame; a parked frame belongs to
a started generator that is neither running nor finished; and one that has not started holds no
frame and is not running.  They hold in every reachable state, and along every session the flags
`started` and `finished` only go forward (`Generator.Stays`).

The body never runs twice at once: a resumption or close of a running generator, which can only
come from inside its own body, is refused with a new `ValueError` and changes nothing else.  Nor
does a finished body run again: its resumption raises the kind's exhaustion signal, or, for a
throw into a generator that is not a coroutine, the exception thrown in. -/

namespace StackVm

/-- The machine after a resumption or close of a running generator of kind `kind` is refused: a
new `ValueError` of kind `reentrancyViolation` placed, nothing else changed. -/
def Machine.refusedReentry (m : Machine) (kind : GeneratorKind) : Machine :=
  { m with heap := (m.heap.alloc (.exception
      { type := .valueError, message := some s!"{kind.displayName} already executing",
        kind := some .reentrancyViolation })).1 }

namespace Vm

/-- What resuming the finished generator `G` at `g` does in place of running its body: a throw
into a generator that is not a coroutine raises the exception thrown in, and every other
resumption the kind's exhaustion signal. -/
def finishedResume {α : Type} (g : Addr) (G : Generator) : Resume → Vm α
  | .throw exc =>
    if G.kind != .coroutine then throwUnstarted g G.function exc else exhaustedSignal G.kind
  | _ => exhaustedSignal G.kind

variable {α : Type} {k : Kit} {m : Machine} {g : Addr} {st : Generator}

theorem alreadyExecuting_run (kind : GeneratorKind) (m : Machine) :
    (alreadyExecuting kind : Vm α) m = .error (.raise m.heap.objs.size) (m.refusedReentry kind) :=
  rfl

theorem exhaustedSignal_raises (kind : GeneratorKind) (m : Machine) :
    ∃ e, (exhaustedSignal kind : Vm α) m =
      .error (.raise m.heap.objs.size) { m with heap := (m.heap.alloc (.exception e)).1 } := by
  cases kind <;> exact ⟨_, rfl⟩

/-- Throwing into a generator that is not suspended at a yield raises the exception thrown in,
once the generator's function and its code are found. -/
theorem throwUnstarted_raises {fnAddr : Addr} {fn : Function} {c : CodeObj}
    (hfn : m.heap.get? fnAddr = some (.function fn)) (hc : m.heap.get? fn.code = some (.code c))
    (exc : Addr) : ∃ m', (throwUnstarted g fnAddr exc : Vm α) m = .error (.raise exc) m' := by
  unfold throwUnstarted
  rw [EStateM.run_bind_of_ok (function_of_get? hfn), EStateM.run_bind_of_ok (codeObj_of_get? hc)]
  exact ⟨_, rfl⟩

/-- Throwing into a generator that is not suspended at a yield never returns, and fails alike
whatever it was to return. -/
theorem throwUnstarted_agree {β : Type} (g fnAddr exc : Addr) (m : Machine) :
    ∃ e m', (throwUnstarted g fnAddr exc : Vm α) m = .error e m' ∧
      (throwUnstarted g fnAddr exc : Vm β) m = .error e m' := by
  unfold throwUnstarted
  cases hf : function fnAddr m with
  | error e m₁ => exact ⟨e, m₁, EStateM.run_bind_of_error hf, EStateM.run_bind_of_error hf⟩
  | ok fn m₁ =>
    rw [EStateM.run_bind_of_ok hf, EStateM.run_bind_of_ok hf]
    cases hc : codeObj fn.code m₁ with
    | error e m₂ => exact ⟨e, m₂, EStateM.run_bind_of_error hc, EStateM.run_bind_of_error hc⟩
    | ok c m₂ =>
      rw [EStateM.run_bind_of_ok hc, EStateM.run_bind_of_ok hc]
      exact ⟨_, _, rfl, rfl⟩

theorem finishedResume_agree {β : Type} (g : Addr) (G : Generator) (resume : Resume)
    (m : Machine) :
    ∃ e m', (finishedResume g G resume : Vm α) m = .error e m' ∧
      (finishedResume g G resume : Vm β) m = .error e m' := by
  have hsignal : ∃ e m', (exhaustedSignal G.kind : Vm α) m = .error e m' ∧
      (exhaustedSignal G.kind : Vm β) m = .error e m' := by
    cases G.kind <;> exact ⟨_, _, rfl, rfl⟩
  cases resume with
  | throw exc =>
    simp only [finishedResume]
    split
    · exact throwUnstarted_agree g G.function exc m
    · exact hsignal
  | start => exact hsignal
  | send v => exact hsignal

/-- A running generator is not resumed: the resumption is refused with a new `ValueError`, and
nothing else changes. -/
theorem resumeGenerator_running (hg : m.heap.get? g = some (.generator st))
    (hr : st.running = true) (resume : Resume) :
    resumeGenerator k g resume m = .error (.raise m.heap.objs.size) (m.refusedReentry st.kind) := by
  unfold resumeGenerator
  rw [EStateM.run_bind_of_ok (generator_of_get? hg)]
  simp only [pure_bind, hr, if_true]
  exact EStateM.run_bind_of_error (alreadyExecuting_run _ _)

/-- A finished generator that is not running is not resumed either: it answers as
`finishedResume`, without its body. -/
theorem resumeGenerator_finished (hg : m.heap.get? g = some (.generator st))
    (hr : st.running = false) (hf : st.finished = true) (resume : Resume) :
    resumeGenerator k g resume m = finishedResume g st resume m := by
  unfold resumeGenerator
  rw [EStateM.run_bind_of_ok (generator_of_get? hg)]
  simp only [pure_bind, hr, hf, if_true, Bool.false_eq_true, if_false]
  obtain ⟨e, m', h₁, h₂⟩ := finishedResume_agree (α := Unit) (β := GenStep) g st resume m
  rw [h₂]
  cases resume with
  | throw exc =>
    simp only [finishedResume] at h₁
    split
    next hc =>
      rw [if_pos hc] at h₁
      exact EStateM.run_bind_of_error h₁
    next hc =>
      rw [if_neg hc] at h₁
      exact EStateM.run_bind_of_error h₁
  | start => exact EStateM.run_bind_of_error h₁
  | send v => exact EStateM.run_bind_of_error h₁

end Vm

/-- The life of a generator.  In every reachable state every generator is coherent, and along
every session from there its `started` and `finished` flags only go forward.  At any nesting
depth, a running generator is neither resumed nor closed: the request is refused with a new
`ValueError` of kind `reentrancyViolation`, and nothing else changes.  A finished generator is
not resumed either: the resumption fails, as `finishedResume`, without its body. -/
theorem generator_lifecycle :
    (∀ m, Reachable m → ∀ g G, m.heap.get? g = some (.generator G) → G.Coherent ∧
      ∀ rs : List Request, (∀ r ∈ rs, r.Allowed) →
        ∃ G', (serve rs m).2.heap.get? g = some (.generator G') ∧ G.Stays G') ∧
    (∀ k m g G, m.heap.get? g = some (.generator G) → G.running = true → ∀ resume,
      Vm.resumeGenerator k g resume m =
          .error (.raise m.heap.objs.size) (m.refusedReentry G.kind) ∧
        Vm.closeGenerator k g m = .error (.raise m.heap.objs.size) (m.refusedReentry G.kind)) ∧
    (∀ k m g G, m.heap.get? g = some (.generator G) → G.running = false → G.finished = true →
      ∀ resume, Vm.resumeGenerator k g resume m = Vm.finishedResume g G resume m ∧
        ∃ e m', Vm.resumeGenerator k g resume m = .error e m') := by
  refine ⟨fun m hm g G hg => ⟨hm.sound.heap.generators g G hg, fun rs hr =>
    serve_generators_stay hr hm.sound hg⟩, fun k m g G hg hr resume => ⟨?_, ?_⟩,
    fun k m g G hg hr hf resume => ?_⟩
  · exact Vm.resumeGenerator_running hg hr resume
  · exact Vm.closeGenerator_running hg hr
  · obtain ⟨e, m', h, -⟩ := Vm.finishedResume_agree (β := GenStep) g G resume m
    rw [Vm.resumeGenerator_finished hg hr hf resume]
    exact ⟨rfl, e, m', h⟩

end StackVm
