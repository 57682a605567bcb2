import StackVm.Proofs.Activation.Leaving
import StackVm.Proofs.Activation.Dispatch
import StackVm.Proofs.Function.Binding

/-! The handlers a frame is in.  A frame enters a handler only when the handler search hands it
an exception: the catching range comes from the frame's table, and the search first leaves every
handler whose range it encloses.  Instructions only leave handlers (`Act.onlyLeaves_step`), and
a resumption enters the frame through a push or a handler search.  So in every frame the engine
reaches, however handlers jump back into their own protected ranges, no handler has a range
enclosing that of a handler entered before it.  Since a range encloses itself, the handlers
hold pairwise distinct spans of the table, and a frame is never in more handlers than its
table has distinct spans.

Main statement: `handled_ranges_nest`. -/

namespace EStateM

variable {ε σ α β : Type} {x : EStateM ε σ α} {f : α → EStateM ε σ β} {s s' : σ} {b : β}

theorem ok_of_bind_ok (h : (x >>= f) s = .ok b s') :
    ∃ a s₁, x s = .ok a s₁ ∧ f a s₁ = .ok b s' := by
  cases hx : x s with
  | ok a s₁ => exact ⟨a, s₁, rfl, by rwa [run_bind_of_ok hx] at h⟩
  | error e s₁ =>
    rw [run_bind_of_error hx] at h
    cases h

end EStateM

namespace StackVm

open EStateM (Keeps)

theorem HandlerRange.keptHandled_prefix (r : HandlerRange) (hs : Array Handled) :
    (r.keptHandled hs).toList <+: hs.toList := by
  obtain ⟨rest, h, -⟩ := r.keptHandled_spec hs
  exact ⟨rest, h.symm⟩

theorem Vm.newFrame_handled {fn : Addr} {args : Array Value} {m m' : Machine} {f : Frame}
    (h : Vm.newFrame fn args m = .ok f m') : f.handled = #[] := by
  unfold Vm.newFrame at h
  obtain ⟨fn', m₁, -, h⟩ := EStateM.ok_of_bind_ok h
  obtain ⟨c, m₂, -, h⟩ := EStateM.ok_of_bind_ok h
  dsimp only at h
  split at h
  · obtain ⟨_, _, h₀, -⟩ := EStateM.ok_of_bind_ok h
    cases h₀
  · obtain ⟨cells, m₃, -, h⟩ := EStateM.ok_of_bind_ok h
    obtain ⟨_, m₄, -, h⟩ := EStateM.ok_of_bind_ok h
    cases h
    rfl

/-- The handlers a frame is in nest: each was entered at a range of the frame's table, and none
has a range enclosing the range of one entered before it. -/
structure Frame.HandlersNest (f : Frame) : Prop where
  mem : ∀ hd ∈ f.handled.toList, hd.range ∈ f.unit.handlers.toList
  apart : f.handled.toList.Pairwise fun a b => b.range.encloses a.range = false

namespace Frame.HandlersNest

variable {f g : Frame}

theorem of_empty (h : f.handled = #[]) : f.HandlersNest :=
  ⟨by simp [h], by simp [h]⟩

theorem inherit (hn : f.HandlersNest) (c : Option Addr) :
    ({ f with inherited := c } : Frame).HandlersNest :=
  ⟨hn.mem, hn.apart⟩

theorem of_prefix (hn : f.HandlersNest) (hcode : g.code = f.code)
    (hpre : g.handled.toList <+: f.handled.toList) : g.HandlersNest where
  mem hd hd_mem := by
    rw [Frame.unit, hcode]
    exact hn.mem hd (hpre.subset hd_mem)
  apart := hn.apart.sublist hpre.sublist

/-- A catch by a range of the table leaves every handler whose range it encloses, so entering
the range's handler keeps the handlers nested. -/
theorem enter (hn : f.HandlersNest) {r : HandlerRange} (hr : r ∈ f.unit.handlers.toList)
    (exc : Addr) (hcode : g.code = f.code)
    (hh : g.handled = (r.keptHandled f.handled).push ⟨exc, r⟩) : g.HandlersNest := by
  obtain ⟨rest, -, hkept, -⟩ := r.keptHandled_spec f.handled
  have hpre := r.keptHandled_prefix f.handled
  refine ⟨fun hd hd_mem => ?_, ?_⟩
  · rw [hh, Array.toList_push, List.mem_append, List.mem_singleton] at hd_mem
    rw [Frame.unit, hcode]
    rcases hd_mem with hd_mem | rfl
    · exact hn.mem hd (hpre.subset hd_mem)
    · exact hr
  · rw [hh, Array.toList_push, List.pairwise_append]
    refine ⟨hn.apart.sublist hpre.sublist, List.pairwise_singleton _ _, fun a ha b hb => ?_⟩
    rw [List.mem_singleton] at hb
    subst hb
    exact hkept a ha

theorem spans_nodup (hn : f.HandlersNest) :
    (f.handled.toList.map fun hd => (hd.range.start, hd.range.stop)).Nodup := by
  refine List.pairwise_map.2 (hn.apart.imp fun {a b} hab heq => ?_)
  simp only [Prod.mk.injEq] at heq
  simp [HandlerRange.encloses, heq.1, heq.2] at hab

theorem size_le (hn : f.HandlersNest) :
    f.handled.size ≤ (f.unit.handlers.toList.map fun r => (r.start, r.stop)).toFinset.card := by
  have hsub : (f.handled.toList.map fun hd => (hd.range.start, hd.range.stop)).toFinset ⊆
      (f.unit.handlers.toList.map fun r => (r.start, r.stop)).toFinset := by
    intro p hp
    simp only [List.mem_toFinset, List.mem_map] at hp ⊢
    obtain ⟨hd, hd_mem, rfl⟩ := hp
    exact ⟨hd.range, hn.mem hd hd_mem, rfl⟩
  have hcard := Finset.card_le_card hsub
  rwa [List.toFinset_card_of_nodup hn.spans_nodup, List.length_map, Array.length_toList] at hcard

end Frame.HandlersNest

/-- A later state of an activation whose frame runs the same code, with handlers that nest if
they nested before. -/
structure Active.KeepsNesting (s s' : Active) : Prop where
  code : s'.frame.code = s.frame.code
  nest : s.frame.HandlersNest → s'.frame.HandlersNest

instance : Std.Refl Active.KeepsNesting := ⟨fun _ => ⟨rfl, id⟩⟩

instance : IsTrans Active Active.KeepsNesting :=
  ⟨fun _ _ _ h₁ h₂ => ⟨h₂.code.trans h₁.code, h₂.nest ∘ h₁.nest⟩⟩

theorem Active.OnlyLeaves.keepsNesting {s s' : Active} (h : s.OnlyLeaves s') :
    s.KeepsNesting s' :=
  ⟨h.code, fun hn => hn.of_prefix h.code h.handled⟩

namespace Act

variable {α : Type} {k : Kit}

/-- An activation computation that keeps the frame's handlers nested. -/
abbrev KeepsNesting (x : Act α) : Prop := Keeps Active.KeepsNesting x

theorem OnlyLeaves.keepsNesting {x : Act α} (hx : OnlyLeaves x) : KeepsNesting x :=
  fun s => (hx s).keepsNesting

/-- The handler search either leaves the frame with no handler, or enters the handler of a
range of the table after leaving those the range encloses; an overflowing push stops it in
between, with the handlers it left gone. -/
theorem keepsNesting_dispatch (exc : Addr) : KeepsNesting (dispatch exc) := by
  intro s
  unfold dispatch
  rw [reads_bind_run]
  cases hfind : s.frame.unit.handlers.find s.frame.instrPc with
  | none => exact ⟨rfl, fun _ => .of_empty rfl⟩
  | some r =>
    have hr : r ∈ s.frame.unit.handlers.toList :=
      Array.mem_toList_iff.2 (Array.mem_of_find?_eq_some hfind)
    dsimp only
    rw [modifyFrame_bind_run]
    by_cases hroom : (s.frame.stack.shrink r.depth).size < s.frame.unit.stackSize
    · rw [EStateM.run_bind_of_ok (push_of_lt _ hroom)]
      exact ⟨rfl, fun hn => hn.enter hr exc rfl rfl⟩
    · rw [EStateM.run_bind_of_error (push_of_full _ (Nat.le_of_not_lt hroom))]
      exact ⟨rfl, fun hn => hn.of_prefix rfl (r.keptHandled_prefix _)⟩

theorem keepsNesting_unwind (err : Fault) : KeepsNesting (unwind err) := by
  unfold unwind
  split
  · refine (onlyLeaves_vm _).keepsNesting.bind fun e => ?_
    dsimp only
    refine Keeps.ite (fun _ => (onlyLeaves_reads _).keepsNesting.bind fun _ =>
      (onlyLeaves_vm _).keepsNesting.bind fun _ => ?_) fun _ => ?_ <;>
    · exact (onlyLeaves_reads _).keepsNesting.bind fun _ =>
        (onlyLeaves_vm _).keepsNesting.bind fun _ => keepsNesting_dispatch _
  · exact Keeps.throw _

theorem keepsNesting_enterFrame (m : Machine) (frame : Frame) (resume : Resume) :
    Active.KeepsNesting ⟨m, { frame with inherited := m.context }⟩
      (enterFrame m frame resume).state := by
  cases resume with
  | start => exact refl_of _ _
  | send v => exact (onlyLeaves_push v _).keepsNesting
  | throw exc => exact keepsNesting_unwind (.raise exc) _

end Act

/-- The frames the engine passes through, on any machine and through any kit: a new frame, and
what entering it (from its start, with a value sent in or an exception thrown in), an
instruction or a handler search makes of a frame it passes through.  A suspended generator
parks a frame the instruction loop stopped in (`Frame.Reachable.runFrame`). -/
inductive Frame.Reachable : Frame → Prop
  | new {fn : Addr} {args : Array Value} {m m' : Machine} {f : Frame} :
      Vm.newFrame fn args m = .ok f m' → Reachable f
  | enter {f : Frame} (m : Machine) (resume : Resume) :
      Reachable f → Reachable (Act.enterFrame m f resume).state.frame
  | step {s : Active} (k : Kit) : Reachable s.frame → Reachable (Act.step k s).state.frame
  | unwind {s : Active} (err : Fault) :
      Reachable s.frame → Reachable (Act.unwind err s).state.frame

namespace Frame.Reachable

variable {k : Kit}

theorem execLoop : ∀ {fuel : Nat} {s : Active}, s.frame.Reachable →
    (Act.execLoop k fuel s).state.frame.Reachable
  | 0, _, hs => hs
  | fuel + 1, s, hs => by
    have hstep := Reachable.step k hs
    simp only [Act.execLoop]
    split
    · next t hst =>
      rw [hst] at hstep
      exact execLoop hstep
    · next e t hst =>
      rwa [hst] at hstep
    · next err t hst =>
      rw [hst, EStateM.Result.state_error] at hstep
      have hunwind := Reachable.unwind err hstep
      split
      · next u hu =>
        rw [hu, EStateM.Result.state_ok] at hunwind
        exact execLoop hunwind
      · next e u hu =>
        rwa [hu] at hunwind

/-- A run of a frame that stops at a yield or a return gives back a reachable frame: the one a
generator parks and resumes later. -/
theorem runFrame {frame f' : Frame} {resume : Resume} {m m' : Machine} {e : FrameExit}
    (hf : frame.Reachable) (h : Vm.runFrame k frame resume m = .ok (e, f') m') : f'.Reachable := by
  rw [Vm.runFrame_eq] at h
  have hentered := Reachable.enter m resume hf
  cases hs : Act.enterFrame m frame resume with
  | error err s =>
    rw [hs] at h
    cases h
  | ok _ s =>
    rw [hs, EStateM.Result.state_ok] at hentered
    rw [hs] at h
    have hloop : (Act.execLoop k stepBudget s).state.frame.Reachable := execLoop hentered
    dsimp only at h
    split at h
    · next e' t hrun =>
      cases h
      rwa [hrun] at hloop
    · cases h

theorem handlersNest {f : Frame} (hf : f.Reachable) : f.HandlersNest := by
  induction hf with
  | new h => exact .of_empty (Vm.newFrame_handled h)
  | enter m resume _ ih => exact (Act.keepsNesting_enterFrame m _ resume).nest (ih.inherit _)
  | step k _ ih => exact (Act.onlyLeaves_step _).keepsNesting.nest ih
  | unwind err _ ih => exact (Act.keepsNesting_unwind err _).nest ih

end Frame.Reachable

/-- In every frame the engine reaches, after any run of instructions, handler searches,
`PopExcept`s and generator suspensions and resumptions, no handler has a range enclosing the
range of a handler entered before it.  So the handlers hold pairwise distinct spans, and a frame
is in at most as many handlers as its handler table has distinct spans, even when a handler
jumps back into its own protected range without leaving. -/
theorem handled_ranges_nest {f : Frame} (hf : f.Reachable) :
    (∀ i j (hij : i < j) (hj : j < f.handled.size),
      f.handled[j].range.encloses f.handled[i].range = false) ∧
    (f.handled.toList.map fun hd => (hd.range.start, hd.range.stop)).Nodup ∧
    f.handled.size ≤ (f.unit.handlers.toList.map fun r => (r.start, r.stop)).toFinset.card := by
  have hn := hf.handlersNest
  refine ⟨fun i j hij hj => ?_, hn.spans_nodup, hn.size_le⟩
  have hapart := List.pairwise_iff_getElem.1 hn.apart i j (by simp; omega) (by simpa using hj) hij
  simpa using hapart

/-- A unit whose handler jumps back into the range it protects without leaving it:
`LoadAssertionError; Raise` at offsets 0 and 1 lie in the range `[0, 2)`, whose handler at 2
pops the exception and jumps back to 0. -/
def reentryUnit : CodeUnit :=
  { (default : CodeUnit) with
    name := "f", bytecode := ⟨#[91, 86, 0, 70, 3, 0]⟩, stackSize := 1,
    handlers := #[⟨0, 2, 2, 0⟩] }

/-- A store holding `reentryUnit` at address 0 and a function of it at address 1. -/
def reentryMachine : Machine :=
  { heap := ⟨#[.code { (default : CodeObj) with unit := reentryUnit },
      .function ⟨0, 0, #[], #[]⟩]⟩ }

/-- The frame of `reentryUnit` that raised, was caught, jumped back into the range and raised
again is reachable and in one handler: the second catch left the first. -/
theorem reentered_handler_replaces_itself :
    ∃ f : Frame, f.Reachable ∧ f.handled.size = 1 ∧ f.pc = 2 ∧
      (∀ i j (hij : i < j) (hj : j < f.handled.size),
        f.handled[j].range.encloses f.handled[i].range = false) ∧
      (f.handled.toList.map fun hd => (hd.range.start, hd.range.stop)).Nodup ∧
      f.handled.size ≤ (f.unit.handlers.toList.map fun r => (r.start, r.stop)).toFinset.card := by
  have hf : reentryMachine.heap.get? 1 = some (.function ⟨0, 0, #[], #[]⟩) := rfl
  have hc : reentryMachine.heap.get? 0 =
      some (.code { (default : CodeObj) with unit := reentryUnit }) := rfl
  have hs : (#[] : Array Value).size ≤ reentryUnit.localNames.size := by decide
  have h₀ := Frame.Reachable.new (Vm.newFrame_run hf hc hs)
  have h₁ := Frame.Reachable.step Kit.exhausted (s := ⟨reentryMachine, _⟩) h₀
  have h₂ := Frame.Reachable.step Kit.exhausted h₁
  have h₃ := Frame.Reachable.unwind (.raise 2) h₂
  have h₄ := Frame.Reachable.step Kit.exhausted h₃
  have h₅ := Frame.Reachable.step Kit.exhausted h₄
  have h₆ := Frame.Reachable.step Kit.exhausted h₅
  have h₇ := Frame.Reachable.step Kit.exhausted h₆
  have h₈ := Frame.Reachable.unwind (.raise 3) h₇
  exact ⟨_, h₈, by decide +kernel, by decide +kernel, handled_ranges_nest h₈⟩

end StackVm
