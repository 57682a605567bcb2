import StackVm.Proofs.Retains.Engine
import StackVm.Proofs.Activation.Search

/-! Closing a generator.  `Vm.closeGenerator` refuses a running generator, finishes one that
has not started or has finished, and otherwise throws a new `GeneratorExit` into the body at
its suspension point and reads the outcome: a body that yields again is a protocol violation, a
body that returns or lets `GeneratorExit` escape is closed, and any other escaping error is
returned after the completion signals are wrapped.  A refused activation leaves the generator
suspended as it was.  In every other case the generator is finished afterwards: the body's run
retains the store (`kit_retains`), so the object at the generator's address is still a
generator when the run ends, and `close` finishes it. -/

namespace EStateM

variable {ε σ α : Type} {x : EStateM ε σ α} {s s' : σ}

theorem run_catching_of_ok {a : α} (hx : x s = .ok a s') :
    (tryCatch (Except.ok <$> x) (fun e => pure (Except.error e)) : EStateM ε σ (Except ε α)) s =
      .ok (.ok a) s' := by
  show EStateM.tryCatch (EStateM.map _ x) _ s = _
  simp only [EStateM.tryCatch, EStateM.map, hx]

theorem run_catching_of_error {e : ε} (hx : x s = .error e s') :
    (tryCatch (Except.ok <$> x) (fun e => pure (Except.error e)) : EStateM ε σ (Except ε α)) s =
      .ok (.error e) s' := by
  show EStateM.tryCatch (EStateM.map _ x) _ s = _
  simp only [EStateM.tryCatch, EStateM.map, hx]
  rfl

end EStateM

namespace StackVm

namespace Heap

variable {h : Heap} {a b g : Addr} {st : Generator}

theorem get?_modify_of_ne {F : Obj → Obj} (hne : a ≠ b) : (h.modify a F).get? b = h.get? b := by
  rw [get?_modify_eq, if_neg hne]

theorem get?_modify_generator (hg : h.get? g = some (.generator st)) (F : Generator → Generator) :
    (h.modify g (Obj.mapGenerator F)).get? g = some (.generator (F st)) := by
  rw [get?_modify_eq, if_pos rfl, hg]
  rfl

/-- The object at `g` is a finished generator: done, not running, and without a frame. -/
def FinishedAt (h : Heap) (g : Addr) : Prop :=
  ∃ st : Generator, h.get? g = some (.generator st) ∧ st.finished = true ∧
    st.running = false ∧ st.frame = none

theorem finishedAt_modify (hg : h.get? g = some (.generator st)) :
    (h.modify g (Obj.mapGenerator Generator.finish)).FinishedAt g :=
  ⟨st.finish, get?_modify_generator hg _, rfl, rfl, rfl⟩

theorem FinishedAt.alloc (hf : h.FinishedAt g) (o : Obj) : (h.alloc o).1.FinishedAt g := by
  obtain ⟨st, hg, hst⟩ := hf
  exact ⟨st, get?_alloc_of_get? hg, hst⟩

end Heap

/-- Whether a body of kind `kind` that lets an exception of type `t` escape has it wrapped in a
`RuntimeError`: `StopIteration` always, `StopAsyncIteration` from an async generator. -/
def GeneratorKind.wrapsEscaping (kind : GeneratorKind) (t : ExcType) : Bool :=
  t == .stopIteration || (kind == .asyncGenerator && t == .stopAsyncIteration)

/-- The machine a parked generator's body resumes on: one activation more, and the generator at
`g` running, with its frame taken out. -/
def Machine.resuming (m : Machine) (g : Addr) : Machine :=
  { m with
    heap := (m.heap.modify g (Obj.mapGenerator fun st => { st with frame := none })).modify g
      (Obj.mapGenerator fun st => { st with running := true, started := true })
    depth := m.depth + 1 }

/-- The machine a body's run hands back: one activation less, and the generator at `g` no longer
running, then changed by `F`. -/
def Machine.leaving (m : Machine) (g : Addr) (F : Generator → Generator) : Machine :=
  { m with
    heap := (m.heap.modify g (Obj.mapGenerator fun st => { st with running := false })).modify g
      (Obj.mapGenerator F)
    depth := m.depth - 1 }

/-- The machine with a new `GeneratorExit` placed at the next free address. -/
def Machine.signalled (m : Machine) : Machine :=
  { m with heap := (m.heap.alloc (.exception { type := .generatorExit, message := none })).1 }

/-- The machine `close` resumes a suspended generator's body on: the signal placed, then the
generator resumed. -/
def Machine.closing (m : Machine) (g : Addr) : Machine := m.signalled.resuming g

namespace Machine

variable {m : Machine} {g b : Addr} {st : Generator}

theorem resuming_get? (hg : m.heap.get? g = some (.generator st)) :
    (m.resuming g).heap.get? g =
      some (.generator { st with frame := none, running := true, started := true }) :=
  Heap.get?_modify_generator (Heap.get?_modify_generator hg _) _

theorem leaving_get? (hg : m.heap.get? g = some (.generator st)) (F : Generator → Generator) :
    (m.leaving g F).heap.get? g = some (.generator (F { st with running := false })) :=
  Heap.get?_modify_generator (Heap.get?_modify_generator hg _) _

theorem leaving_get?_of_ne (hne : g ≠ b) (F : Generator → Generator) :
    (m.leaving g F).heap.get? b = m.heap.get? b := by
  simp only [leaving, Heap.get?_modify_of_ne hne]

theorem closing_signal (hg : m.heap.get? g = some (.generator st)) :
    (m.closing g).heap.get? m.heap.objs.size =
      some (.exception { type := .generatorExit, message := none }) := by
  have hne : g ≠ m.heap.objs.size := Nat.ne_of_lt (Heap.lt_of_get? hg)
  simp only [closing, resuming, Heap.get?_modify_of_ne hne]
  exact Heap.get?_alloc _ _

theorem finishedAt_leaving (hg : m.heap.get? g = some (.generator st)) :
    (m.leaving g Generator.finish).heap.FinishedAt g :=
  ⟨_, leaving_get? hg _, rfl, rfl, rfl⟩

end Machine

namespace Vm

variable {α : Type} {k : Kit} {m : Machine} {g : Addr} {st : Generator}

theorem generator_of_get? (hg : m.heap.get? g = some (.generator st)) :
    generator g m = .ok st m := by
  unfold generator
  rw [EStateM.run_bind_of_ok (obj_of_get? hg)]
  rfl

theorem modifyGenerator_bind_run (F : Generator → Generator) (f : Unit → Vm α) (m : Machine) :
    (modifyGenerator g F >>= f) m = f () { m with heap := m.heap.modify g (Obj.mapGenerator F) } :=
  rfl

theorem leaveActivation_bind_run (f : Unit → Vm α) (m : Machine) :
    (leaveActivation >>= f) m = f () { m with depth := m.depth - 1 } := rfl

/-! ### Errors escaping a body -/

section Escaping

variable {kind : GeneratorKind} {a : Addr} {x : Exc}

theorem wrapEscaping_of_fault {e : Fault} (he : ∀ a, e ≠ .raise a) :
    wrapEscaping kind e m = .ok e m := by
  cases e with
  | raise a => exact absurd rfl (he a)
  | internal ie => rfl
  | exhausted => rfl

theorem wrapEscaping_unwrapped (hx : m.heap.get? a = some (.exception x))
    (hw : kind.wrapsEscaping x.type = false) :
    wrapEscaping kind (.raise a) m = .ok (.raise a) m := by
  unfold wrapEscaping
  dsimp only
  rw [EStateM.run_bind_of_ok (exc_of_get? hx)]
  simp only [GeneratorKind.wrapsEscaping, Bool.or_eq_false_iff] at hw
  simp only [hw.1, hw.2, if_false, Bool.false_eq_true]
  rfl

/-- The wrapping: a new `RuntimeError` whose context is the signal; nothing else in the store
changes. -/
theorem wrapSignal_run (a : Addr) (msg : String) :
    ∃ m', (do
        let w ← newExc { type := .runtimeError, message := some msg, context := some a }
        setCause w (some a)
        pure (Fault.raise w) : Vm Fault) m = .ok (.raise m.heap.objs.size) m' ∧
      (∃ y, m'.heap.get? m.heap.objs.size = some (.exception y) ∧ y.type = .runtimeError ∧
        y.context = some a) ∧
      ∀ b, b ≠ m.heap.objs.size → m'.heap.get? b = m.heap.get? b := by
  refine ⟨_, rfl, ?_, fun b hb => ?_⟩
  · dsimp only
    rw [Heap.get?_modify_eq, if_pos rfl]
    simp only [Heap.get?, Array.getElem?_push_size, Option.map_some]
    exact ⟨_, rfl, rfl, rfl⟩
  · dsimp only
    rw [Heap.get?_modify_eq, if_neg (Ne.symm hb)]
    simp only [Heap.get?, Array.getElem?_push, if_neg hb]

/-- A completion signal escapes as a new `RuntimeError` whose context is the signal; nothing
else in the store changes. -/
theorem wrapEscaping_wrapped (hx : m.heap.get? a = some (.exception x))
    (hw : kind.wrapsEscaping x.type = true) :
    ∃ m', wrapEscaping kind (.raise a) m = .ok (.raise m.heap.objs.size) m' ∧
      (∃ y, m'.heap.get? m.heap.objs.size = some (.exception y) ∧ y.type = .runtimeError ∧
        y.context = some a) ∧
      ∀ b, b ≠ m.heap.objs.size → m'.heap.get? b = m.heap.get? b := by
  unfold wrapEscaping
  dsimp only
  rw [EStateM.run_bind_of_ok (exc_of_get? hx)]
  simp only [GeneratorKind.wrapsEscaping, Bool.or_eq_true] at hw
  split
  · exact wrapSignal_run a _
  · split
    · exact wrapSignal_run a _
    · exact absurd (hw.resolve_left ‹_›) ‹_›

theorem exc_dangling (hx : ∀ x, m.heap.get? a ≠ some (.exception x)) :
    ∃ ie, exc a m = .error (.internal ie) m := by
  unfold exc
  cases ho : m.heap.get? a with
  | none =>
    have hobj : obj a m = .error (.internal (.malformed "dangling reference")) m := by
      unfold obj
      rw [get_bind_run, ho]
      rfl
    exact ⟨_, EStateM.run_bind_of_error hobj⟩
  | some o =>
    rw [EStateM.run_bind_of_ok (obj_of_get? ho)]
    cases o
    case exception x => exact absurd ho (hx x)
    all_goals exact ⟨_, rfl⟩

theorem wrapEscaping_dangling (kind : GeneratorKind)
    (hx : ∀ x, m.heap.get? a ≠ some (.exception x)) :
    ∃ ie, wrapEscaping kind (.raise a) m = .error (.internal ie) m := by
  obtain ⟨ie, hie⟩ := exc_dangling hx
  exact ⟨ie, EStateM.run_bind_of_error hie⟩

theorem wrapEscaping_error {e e' : Fault} {m' : Machine}
    (h : wrapEscaping kind e m = .error e' m') : ∃ ie, e' = .internal ie := by
  by_cases he : ∃ a, e = .raise a
  · obtain ⟨a, rfl⟩ := he
    by_cases hx : ∃ x, m.heap.get? a = some (.exception x)
    · obtain ⟨x, hx⟩ := hx
      cases hw : kind.wrapsEscaping x.type
      · rw [wrapEscaping_unwrapped hx hw] at h
        cases h
      · obtain ⟨m'', h', -⟩ := wrapEscaping_wrapped hx hw
        rw [h'] at h
        cases h
    · obtain ⟨ie, h'⟩ := wrapEscaping_dangling kind (fun x hx' => hx ⟨x, hx'⟩)
      rw [h'] at h
      cases h
      exact ⟨ie, rfl⟩
  · rw [wrapEscaping_of_fault (fun a ha => he ⟨a, ha⟩)] at h
    cases h

end Escaping

/-! ### Resuming a parked generator -/

section Parked

variable (hg : m.heap.get? g = some (.generator st)) (hr : st.running = false)
  (hs : st.started = true) (hf : st.finished = false)
include hg hr hs hf

/-- At the depth limit the activation is refused: a new `RecursionError` is raised and the
generator gets its frame back, as it was. -/
theorem resumeGenerator_refused (resume : Resume) (hd : m.config.maxDepth ≤ m.depth) :
    ∃ m', resumeGenerator k g resume m = .error (.raise m.heap.objs.size) m' ∧
      m'.heap.get? m.heap.objs.size = some (.exception
        { type := .recursionError, message := some "maximum recursion depth exceeded" }) ∧
      m'.heap.get? g = some (.generator st) := by
  unfold resumeGenerator
  rw [EStateM.run_bind_of_ok (generator_of_get? hg)]
  simp only [pure_bind, hr, hs, hf, if_false, Bool.false_eq_true, Bool.not_true]
  rw [modifyGenerator_bind_run]
  set h₁ := m.heap.modify g (Obj.mapGenerator fun st => { st with frame := none })
  have hsize : h₁.objs.size = m.heap.objs.size := Array.size_modify ..
  have hg₁ : h₁.get? g = some (.generator { st with frame := none }) :=
    Heap.get?_modify_generator hg _
  set refusal : Obj :=
    .exception { type := .recursionError, message := some "maximum recursion depth exceeded" }
  have henter : enterActivation { m with heap := h₁ } =
      .error (.raise m.heap.objs.size) { m with heap := (h₁.alloc refusal).1 } := by
    rw [enterActivation_of_le (m := { m with heap := h₁ }) hd, ← hsize]
    rfl
  have hne : g ≠ m.heap.objs.size := Nat.ne_of_lt (Heap.lt_of_get? hg)
  refine ⟨{ m with
      heap := (h₁.alloc refusal).1.modify g
        (Obj.mapGenerator fun x => { x with frame := st.frame }) },
    EStateM.run_bind_of_error ?_, ?_, ?_⟩
  · rw [EStateM.run_tryCatch_of_error henter]
    rfl
  · rw [Heap.get?_modify_of_ne hne, ← hsize]
    exact Heap.get?_alloc _ _
  · rw [Heap.get?_modify_generator (Heap.get?_alloc_of_get? hg₁)]

/-- Below the depth limit the parked frame is resumed on `m.resuming g`, and its outcome decides
the rest: a yield parks the frame the body stopped in, a return finishes the generator, and an
error finishes it and escapes, wrapped. -/
theorem resumeGenerator_parked {f : Frame} (hp : st.frame = some f) (resume : Resume)
    (hd : m.depth < m.config.maxDepth) :
    resumeGenerator k g resume m =
      match runFrame k f resume (m.resuming g) with
      | .ok (.yield v, f') m' =>
        .ok (.yielded v) (m'.leaving g fun st => { st with frame := some f' })
      | .ok (.ret v, _) m' => .ok (.returned v) (m'.leaving g Generator.finish)
      | .error e m' => (wrapEscaping st.kind e >>= throw) (m'.leaving g Generator.finish) := by
  unfold resumeGenerator
  rw [EStateM.run_bind_of_ok (generator_of_get? hg)]
  simp only [pure_bind, hr, hs, hf, hp, if_false, Bool.false_eq_true, Bool.not_true]
  rw [modifyGenerator_bind_run]
  set h₁ := m.heap.modify g (Obj.mapGenerator fun st => { st with frame := none })
  rw [EStateM.run_bind_of_ok (EStateM.run_tryCatch_of_ok
    (enterActivation_of_lt (m := { m with heap := h₁ }) hd)), modifyGenerator_bind_run]
  cases hrun : runFrame k f resume (m.resuming g) with
  | ok r m' =>
    refine (EStateM.run_bind_of_ok (EStateM.run_catching_of_ok hrun)).trans ?_
    obtain ⟨e, f'⟩ := r
    cases e <;> rfl
  | error e m' =>
    refine (EStateM.run_bind_of_ok (EStateM.run_catching_of_error hrun)).trans ?_
    rfl

end Parked

theorem generator_after_run (hk : k.Retains) (hg : m.heap.get? g = some (.generator st))
    (f : Frame) (resume : Resume) :
    ∃ st', (runFrame k f resume (m.resuming g)).state.heap.get? g = some (.generator st') :=
  (retains_runFrame hk f resume (m.resuming g)).heap.generator (Machine.resuming_get? hg)

/-! ### Closing -/

theorem closeGenerator_running (hg : m.heap.get? g = some (.generator st))
    (hr : st.running = true) :
    closeGenerator k g m = .error (.raise m.heap.objs.size) { m with
      heap := (m.heap.alloc (.exception
        { type := .valueError
          message := some s!"{st.kind.displayName} already executing"
          kind := some .reentrancyViolation })).1 } := by
  unfold closeGenerator
  rw [EStateM.run_bind_of_ok (generator_of_get? hg)]
  simp only [hr, if_true]
  rfl

theorem closeGenerator_idle (hg : m.heap.get? g = some (.generator st)) (hr : st.running = false)
    (hi : st.started = false ∨ st.finished = true) :
    closeGenerator k g m =
      .ok () { m with heap := m.heap.modify g (Obj.mapGenerator Generator.finish) } := by
  unfold closeGenerator
  rw [EStateM.run_bind_of_ok (generator_of_get? hg)]
  have hidle : (!st.started || st.finished) = true := by
    rcases hi with h | h <;> simp [h]
  simp only [hr, hidle, if_true, Bool.false_eq_true, if_false]
  rfl

/-- A suspended generator is resumed with a new `GeneratorExit` thrown in, and the resumption's
outcome decides the rest: a yield is a protocol violation, after which the generator is
finished; a return closes it; an escaping `GeneratorExit` closes it and any other error is
returned. -/
theorem closeGenerator_suspended (hg : m.heap.get? g = some (.generator st))
    (hr : st.running = false) (hs : st.started = true) (hf : st.finished = false) :
    closeGenerator k g m =
      match resumeGenerator k g (.throw m.heap.objs.size) m.signalled with
      | .ok (.yielded _) m' => .error (.raise m'.heap.objs.size) { m' with
          heap := ((m'.heap.modify g (Obj.mapGenerator Generator.finish)).alloc (.exception
            { type := .runtimeError
              message := some s!"{st.kind.displayName} ignored GeneratorExit"
              kind := some .protocolViolation })).1 }
      | .ok (.returned _) m' => .ok () m'
      | .error (.raise a) m' =>
        (do if (← exc a).type == .generatorExit then pure () else throw (.raise a) : Vm Unit) m'
      | .error e m' => .error e m' := by
  unfold closeGenerator
  rw [EStateM.run_bind_of_ok (generator_of_get? hg)]
  simp only [hr, hs, hf, if_false, Bool.false_eq_true, Bool.not_true, Bool.or_false]
  cases hres : resumeGenerator k g (.throw m.heap.objs.size) m.signalled with
  | ok r m' =>
    refine (EStateM.run_bind_of_ok (EStateM.run_catching_of_ok hres)).trans ?_
    cases r with
    | yielded v =>
      dsimp only
      rw [← Heap.size_modify m'.heap g (Obj.mapGenerator Generator.finish)]
      rfl
    | returned v => rfl
  | error e m' =>
    refine (EStateM.run_bind_of_ok (EStateM.run_catching_of_error hres)).trans ?_
    cases e <;> rfl

/-- A suspended generator whose activation is refused: `close` fails with the `RecursionError`,
and the generator is left suspended as it was. -/
theorem closeGenerator_refused (hg : m.heap.get? g = some (.generator st)) (hr : st.running = false)
    (hs : st.started = true) (hf : st.finished = false) (hd : m.config.maxDepth ≤ m.depth) :
    ∃ a x m', closeGenerator k g m = .error (.raise a) m' ∧
      m'.heap.get? a = some (.exception x) ∧ x.type = .recursionError ∧
      m'.heap.get? g = some (.generator st) := by
  obtain ⟨m', hres, hrec, hg'⟩ :=
    resumeGenerator_refused (k := k) (m := m.signalled) (Heap.get?_alloc_of_get? hg) hr hs hf
      (.throw m.heap.objs.size) hd
  refine ⟨_, _, m', ?_, hrec, rfl, hg'⟩
  rw [closeGenerator_suspended hg hr hs hf, hres]
  dsimp only
  rw [EStateM.run_bind_of_ok (exc_of_get? hrec)]
  rfl

section Entered

variable (hk : k.Retains) (hg : m.heap.get? g = some (.generator st)) (hr : st.running = false)
  (hs : st.started = true) (hf : st.finished = false) {f : Frame} (hp : st.frame = some f)
  (hd : m.depth < m.config.maxDepth)
include hk hg hr hs hf hp hd

/-- The body thrown into by `close` ends in a store that still holds the generator, and its
outcome decides the resumption's. -/
theorem resume_closing :
    (∃ st', (runFrame k f (.throw m.heap.objs.size) (m.closing g)).state.heap.get? g =
      some (.generator st')) ∧
    resumeGenerator k g (.throw m.heap.objs.size) m.signalled =
      match runFrame k f (.throw m.heap.objs.size) (m.closing g) with
      | .ok (.yield v, f') m' =>
        .ok (.yielded v) (m'.leaving g fun st => { st with frame := some f' })
      | .ok (.ret v, _) m' => .ok (.returned v) (m'.leaving g Generator.finish)
      | .error e m' => (wrapEscaping st.kind e >>= throw) (m'.leaving g Generator.finish) := by
  have hg₁ : m.signalled.heap.get? g = some (.generator st) := Heap.get?_alloc_of_get? hg
  exact ⟨generator_after_run hk hg₁ f _, resumeGenerator_parked hg₁ hr hs hf hp _ hd⟩

/-- A body that yields again: `close` fails with a `RuntimeError` of kind `protocolViolation`,
and the generator is finished. -/
theorem closeGenerator_of_yield {v : Value} {f' : Frame} {m₃ : Machine}
    (hrun : runFrame k f (.throw m.heap.objs.size) (m.closing g) = .ok (.yield v, f') m₃) :
    ∃ a x m', closeGenerator k g m = .error (.raise a) m' ∧
      m'.heap.get? a = some (.exception x) ∧ x.type = .runtimeError ∧
      x.errorKind = .protocolViolation ∧ m'.heap.FinishedAt g := by
  obtain ⟨hgen, hres⟩ := resume_closing hk hg hr hs hf hp hd
  rw [hrun] at hgen hres
  obtain ⟨st₃, hg₃⟩ := hgen
  rw [closeGenerator_suspended hg hr hs hf, hres]
  set m₄ := m₃.leaving g fun st => { st with frame := some f' }
  have hfin : (m₄.heap.modify g (Obj.mapGenerator Generator.finish)).FinishedAt g :=
    Heap.finishedAt_modify (Machine.leaving_get? hg₃ _)
  refine ⟨_,
    { type := .runtimeError
      message := some s!"{st.kind.displayName} ignored GeneratorExit"
      kind := some .protocolViolation },
    _, rfl, ?_, rfl, rfl, hfin.alloc _⟩
  rw [Heap.get?_alloc_eq, if_pos (Heap.size_modify ..).symm]

theorem closeGenerator_of_return {v : Value} {f' : Frame} {m₃ : Machine}
    (hrun : runFrame k f (.throw m.heap.objs.size) (m.closing g) = .ok (.ret v, f') m₃) :
    ∃ m', closeGenerator k g m = .ok () m' ∧ m'.heap.FinishedAt g := by
  obtain ⟨hgen, hres⟩ := resume_closing hk hg hr hs hf hp hd
  rw [hrun] at hgen hres
  obtain ⟨st₃, hg₃⟩ := hgen
  rw [closeGenerator_suspended hg hr hs hf, hres]
  exact ⟨_, rfl, Machine.finishedAt_leaving hg₃⟩

/-- A body that fails: the generator is finished on the way out, the error is wrapped, and
`close` reads the wrapped error; a wrapping that fails is returned as it is. -/
theorem closeGenerator_of_escape {e : Fault} {m₃ : Machine}
    (hrun : runFrame k f (.throw m.heap.objs.size) (m.closing g) = .error e m₃) :
    (∃ st₃, m₃.heap.get? g = some (.generator st₃)) ∧
    (∀ w m₅, wrapEscaping st.kind e (m₃.leaving g Generator.finish) = .ok w m₅ →
      closeGenerator k g m = match w with
        | .raise a => (do
            if (← exc a).type == .generatorExit then pure () else throw (.raise a) : Vm Unit) m₅
        | w => .error w m₅) ∧
    (∀ e' m₅, wrapEscaping st.kind e (m₃.leaving g Generator.finish) = .error e' m₅ →
      closeGenerator k g m = .error e' m₅) := by
  obtain ⟨hgen, hres⟩ := resume_closing hk hg hr hs hf hp hd
  rw [hrun] at hgen hres
  dsimp only at hres
  refine ⟨hgen, fun w m₅ hwrap => ?_, fun e' m₅ hwrap => ?_⟩
  · rw [closeGenerator_suspended hg hr hs hf, hres, EStateM.run_bind_of_ok hwrap]
    cases w <;> rfl
  · rw [closeGenerator_suspended hg hr hs hf, hres, EStateM.run_bind_of_error hwrap]
    obtain ⟨ie, rfl⟩ := wrapEscaping_error hwrap
    rfl

section Raised

variable {a : Addr} {x : Exc} {m₃ : Machine}
  (hrun : runFrame k f (.throw m.heap.objs.size) (m.closing g) = .error (.raise a) m₃)
  (hx : m₃.heap.get? a = some (.exception x))
include hrun hx

/-- An exception the body lets escape and that is not wrapped: `close` succeeds when it is a
`GeneratorExit` and fails with it otherwise; the generator is finished either way. -/
theorem closeGenerator_of_unwrapped (hw : st.kind.wrapsEscaping x.type = false) :
    ∃ m', m'.heap.FinishedAt g ∧
      closeGenerator k g m =
        if x.type == .generatorExit then .ok () m' else .error (.raise a) m' := by
  obtain ⟨⟨st₃, hg₃⟩, hclose, -⟩ := closeGenerator_of_escape hk hg hr hs hf hp hd hrun
  have hne : g ≠ a := by
    rintro rfl
    rw [hg₃] at hx
    cases hx
  have hx₄ : (m₃.leaving g Generator.finish).heap.get? a = some (.exception x) := by
    rw [Machine.leaving_get?_of_ne hne, hx]
  refine ⟨_, Machine.finishedAt_leaving hg₃, ?_⟩
  rw [hclose _ _ (wrapEscaping_unwrapped hx₄ hw)]
  dsimp only
  rw [EStateM.run_bind_of_ok (exc_of_get? hx₄)]
  split <;> rfl

/-- A completion signal the body lets escape: `close` fails with the new `RuntimeError` whose
context is the signal, and the generator is finished. -/
theorem closeGenerator_of_wrapped (hw : st.kind.wrapsEscaping x.type = true) :
    ∃ w y m', closeGenerator k g m = .error (.raise w) m' ∧
      m'.heap.get? w = some (.exception y) ∧ y.type = .runtimeError ∧ y.context = some a ∧
      m'.heap.FinishedAt g := by
  obtain ⟨⟨st₃, hg₃⟩, hclose, -⟩ := closeGenerator_of_escape hk hg hr hs hf hp hd hrun
  have hne : g ≠ a := by
    rintro rfl
    rw [hg₃] at hx
    cases hx
  have hx₄ : (m₃.leaving g Generator.finish).heap.get? a = some (.exception x) := by
    rw [Machine.leaving_get?_of_ne hne, hx]
  obtain ⟨m₅, hwrap, ⟨y, hy, hyt, hyc⟩, hrest⟩ := wrapEscaping_wrapped hx₄ hw
  have hfin := Machine.finishedAt_leaving hg₃
  have hgw : g ≠ (m₃.leaving g Generator.finish).heap.objs.size := by
    obtain ⟨st₄, hg₄, -⟩ := hfin
    exact Nat.ne_of_lt (Heap.lt_of_get? hg₄)
  refine ⟨_, y, m₅, ?_, hy, hyt, hyc, ?_⟩
  · rw [hclose _ _ hwrap]
    dsimp only
    rw [EStateM.run_bind_of_ok (exc_of_get? hy), hyt]
    rfl
  · obtain ⟨st₄, hg₄, hst⟩ := hfin
    exact ⟨st₄, by rw [hrest g hgw, hg₄], hst⟩

end Raised

/-- A fault that is not an exception, escaping the body: `close` returns it, and the generator
is finished. -/
theorem closeGenerator_of_fault {e : Fault} {m₃ : Machine}
    (hrun : runFrame k f (.throw m.heap.objs.size) (m.closing g) = .error e m₃)
    (he : ∀ a, e ≠ .raise a) :
    ∃ m', closeGenerator k g m = .error e m' ∧ m'.heap.FinishedAt g := by
  obtain ⟨⟨st₃, hg₃⟩, hclose, -⟩ := closeGenerator_of_escape hk hg hr hs hf hp hd hrun
  refine ⟨_, ?_, Machine.finishedAt_leaving hg₃⟩
  rw [hclose _ _ (wrapEscaping_of_fault he)]
  cases e with
  | raise a => exact absurd rfl (he a)
  | internal ie => rfl
  | exhausted => rfl

/-- An escaping address with no exception at it: `close` fails with an internal error, and the
generator is finished. -/
theorem closeGenerator_of_dangling {a : Addr} {m₃ : Machine}
    (hrun : runFrame k f (.throw m.heap.objs.size) (m.closing g) = .error (.raise a) m₃)
    (hx : ∀ x, m₃.heap.get? a ≠ some (.exception x)) :
    ∃ ie m', closeGenerator k g m = .error (.internal ie) m' ∧ m'.heap.FinishedAt g := by
  obtain ⟨⟨st₃, hg₃⟩, -, hclose⟩ := closeGenerator_of_escape hk hg hr hs hf hp hd hrun
  have hx₄ : ∀ x, (m₃.leaving g Generator.finish).heap.get? a ≠ some (.exception x) := by
    intro x
    by_cases hne : g = a
    · subst hne
      rw [Machine.leaving_get? hg₃]
      simp
    · rw [Machine.leaving_get?_of_ne hne]
      exact hx x
  obtain ⟨ie, hwrap⟩ := wrapEscaping_dangling st.kind hx₄
  exact ⟨ie, _, hclose _ _ hwrap, Machine.finishedAt_leaving hg₃⟩

end Entered

end Vm

/-- `generator.close()`, by the state it finds the generator in.  A running generator is refused
with a reentrancy violation and left as it is.  One that has not started, or has finished, is
finished.  A suspended one has a new `GeneratorExit` thrown in at the frame it is parked in
(`Machine.closing`, `Machine.closing_signal`), unless the activation is refused, which fails with
the `RecursionError` and leaves the generator suspended as it was; then the body decides: a yield
is a protocol violation, a return or an escaping `GeneratorExit` closes it, and any other
error is returned, a completion signal wrapped in a `RuntimeError`.  In all of these the
generator is finished afterwards. -/
theorem close_by_generator_state (m : Machine) (g : Addr) (st : Generator)
    (hg : m.heap.get? g = some (.generator st)) :
    (st.running = true →
      ∃ a x m', Vm.close g m = .error (.raise a) m' ∧ m'.heap.get? a = some (.exception x) ∧
        x.type = .valueError ∧ x.errorKind = .reentrancyViolation ∧
        m'.heap.get? g = some (.generator st)) ∧
    (st.running = false → (st.started = false ∨ st.finished = true) →
      Vm.close g m =
        .ok () { m with heap := m.heap.modify g (Obj.mapGenerator Generator.finish) } ∧
      (m.heap.modify g (Obj.mapGenerator Generator.finish)).FinishedAt g) ∧
    (st.running = false → st.started = true → st.finished = false →
      ∀ f, st.frame = some f →
      (m.config.maxDepth ≤ m.depth →
        ∃ a x m', Vm.close g m = .error (.raise a) m' ∧ m'.heap.get? a = some (.exception x) ∧
          x.type = .recursionError ∧ m'.heap.get? g = some (.generator st)) ∧
      (m.depth < m.config.maxDepth →
        let body := Vm.runFrame (kit nestingBudget) f (.throw m.heap.objs.size) (m.closing g)
        (∀ v f' m₃, body = .ok (.yield v, f') m₃ →
          ∃ a x m', Vm.close g m = .error (.raise a) m' ∧ m'.heap.get? a = some (.exception x) ∧
            x.type = .runtimeError ∧ x.errorKind = .protocolViolation ∧ m'.heap.FinishedAt g) ∧
        (∀ v f' m₃, body = .ok (.ret v, f') m₃ →
          ∃ m', Vm.close g m = .ok () m' ∧ m'.heap.FinishedAt g) ∧
        (∀ a x m₃, body = .error (.raise a) m₃ → m₃.heap.get? a = some (.exception x) →
          st.kind.wrapsEscaping x.type = false →
          ∃ m', m'.heap.FinishedAt g ∧
            Vm.close g m = if x.type == .generatorExit then .ok () m' else .error (.raise a) m') ∧
        (∀ a x m₃, body = .error (.raise a) m₃ → m₃.heap.get? a = some (.exception x) →
          st.kind.wrapsEscaping x.type = true →
          ∃ w y m', Vm.close g m = .error (.raise w) m' ∧ m'.heap.get? w = some (.exception y) ∧
            y.type = .runtimeError ∧ y.context = some a ∧ m'.heap.FinishedAt g) ∧
        (∀ e m₃, body = .error e m₃ → (∀ a, e ≠ .raise a) →
          ∃ m', Vm.close g m = .error e m' ∧ m'.heap.FinishedAt g) ∧
        (∀ a m₃, body = .error (.raise a) m₃ → (∀ x, m₃.heap.get? a ≠ some (.exception x)) →
          ∃ ie m', Vm.close g m = .error (.internal ie) m' ∧ m'.heap.FinishedAt g))) := by
  have hk := kit_retains nestingBudget
  refine ⟨fun hr => ?_,
    fun hr hi => ⟨Vm.closeGenerator_idle hg hr hi, Heap.finishedAt_modify hg⟩,
    fun hr hs hf f hp => ⟨Vm.closeGenerator_refused hg hr hs hf, fun hd => ?_⟩⟩
  · refine ⟨_, _, _, Vm.closeGenerator_running hg hr, Heap.get?_alloc _ _, rfl, rfl, ?_⟩
    exact Heap.get?_alloc_of_get? hg
  · exact ⟨fun _ _ _ hrun => Vm.closeGenerator_of_yield hk hg hr hs hf hp hd hrun,
      fun _ _ _ hrun => Vm.closeGenerator_of_return hk hg hr hs hf hp hd hrun,
      fun _ _ _ hrun hx hw => Vm.closeGenerator_of_unwrapped hk hg hr hs hf hp hd hrun hx hw,
      fun _ _ _ hrun hx hw => Vm.closeGenerator_of_wrapped hk hg hr hs hf hp hd hrun hx hw,
      fun _ _ hrun he => Vm.closeGenerator_of_fault hk hg hr hs hf hp hd hrun he,
      fun _ _ hrun hx => Vm.closeGenerator_of_dangling hk hg hr hs hf hp hd hrun hx⟩

/-- A generator that was never started. -/
def pendingGenerator : Generator :=
  { function := 0, name := "gen", baseArgs := #[], kind := .generator }

/-- A machine whose store holds only that generator. -/
def pendingMachine : Machine := { heap := { objs := #[.generator pendingGenerator] } }

/-- Closing a generator that never started finishes it, and changes nothing else. -/
theorem close_finishes_pending_generator :
    Vm.close 0 pendingMachine =
        .ok () { pendingMachine with
          heap := pendingMachine.heap.modify 0 (Obj.mapGenerator Generator.finish) } ∧
      (pendingMachine.heap.modify 0 (Obj.mapGenerator Generator.finish)).FinishedAt 0 :=
  (close_by_generator_state pendingMachine 0 pendingGenerator rfl).2.1 rfl (Or.inl rfl)

end StackVm
