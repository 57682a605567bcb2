import StackVm.Proofs.Machine.Store
import StackVm.Interp.Step

/-! Activations at other offsets.  `Active.seenAt` puts an activation's frame at other
offsets and retunes its machine.  The primitives of an activation (the operand stack, the
local slots, the computations on the store alone) are blind to both: run on the activation
seen at other offsets, they end as they end on the activation itself, seen at the same
offsets, except that an operand stack error names the offset it is raised at.  The
operations of the adaptive paths only retune the machine. -/

namespace StackVm

@[simp] theorem Frame.unit_withOffsets (f : Frame) (pc instrPc : Nat) :
    ({ f with pc, instrPc } : Frame).unit = f.unit := rfl

namespace Active

/-- The activation with its frame at the offsets `pc` and `instrPc`, on its machine retuned
to `a`. -/
def seenAt (s : Active) (a : Tuning) (pc instrPc : Nat) : Active :=
  ⟨s.machine.tuned a, { s.frame with pc, instrPc }⟩

variable {s : Active} {a : Tuning} {pc instrPc : Nat}

@[simp] theorem seenAt_self : s.seenAt s.machine.tuning s.frame.pc s.frame.instrPc = s := rfl

@[simp] theorem seenAt_machine : (s.seenAt a pc instrPc).machine = s.machine.tuned a := rfl
/-- The activation with another operand stack. -/
def withStack (s : Active) (st : Array Value) : Active := ⟨s.machine, { s.frame with stack := st }⟩

@[simp] theorem withStack_machine (st : Array Value) : (s.withStack st).machine = s.machine := rfl
@[simp] theorem withStack_stack (st : Array Value) : (s.withStack st).frame.stack = st := rfl
@[simp] theorem withStack_code (st : Array Value) : (s.withStack st).frame.code = s.frame.code :=
  rfl
@[simp] theorem withStack_instrPc (st : Array Value) :
    (s.withStack st).frame.instrPc = s.frame.instrPc := rfl

theorem seenAt_withStack (st : Array Value) :
    (s.withStack st).seenAt a pc instrPc = (s.seenAt a pc instrPc).withStack st := rfl

theorem eq_withStack {st : Array Value} (h : s.frame.stack = st) : s = s.withStack st := by
  rw [← h]
  rfl

/-- A result of the activation seen at other offsets. -/
def resultSeenAt {α : Type} (a : Tuning) (pc instrPc : Nat) :
    EStateM.Result Fault Active α → EStateM.Result Fault Active α
  | .ok v s => .ok v (s.seenAt a pc instrPc)
  | .error e s => .error (e.reportedAt instrPc) (s.seenAt a pc instrPc)

end Active

namespace Act

open Active

variable {α β : Type}

theorem vm_of_ok {x : Vm α} {s : Active} {v : α} {m : Machine} (h : x s.machine = .ok v m) :
    vm x s = .ok v ⟨m, s.frame⟩ := by
  obtain ⟨m₀, f⟩ := s
  unfold vm
  dsimp only at h ⊢
  rw [h]

theorem vm_of_error {x : Vm α} {s : Active} {e : Fault} {m : Machine}
    (h : x s.machine = .error e m) : vm x s = .error e ⟨m, s.frame⟩ := by
  obtain ⟨m₀, f⟩ := s
  unfold vm
  dsimp only at h ⊢
  rw [h]

/-- A computation that reads neither the offsets of the frame nor the adaptive state, changes
neither, keeps the frame's code, and fails only with internal errors. -/
structure Blind (x : Act α) : Prop where
  run : ∀ s a pc instrPc, x (s.seenAt a pc instrPc) = resultSeenAt a pc instrPc (x s)
  code : ∀ s v s', x s = .ok v s' → s'.frame.code = s.frame.code
  faults : ∀ s e s', x s = .error e s' → ∃ ie, e = .internal ie

namespace Blind

variable {x : Act α} {f : α → Act β}

theorem pure (v : α) : Blind (Pure.pure v : Act α) where
  run _ _ _ _ := rfl
  code _ _ _ h := by cases h; rfl
  faults _ _ _ h := nomatch h

theorem bind (hx : Blind x) (hf : ∀ v, Blind (f v)) : Blind (x >>= f) where
  run s a pc instrPc := by
    show EStateM.bind x f (s.seenAt a pc instrPc) =
      resultSeenAt a pc instrPc (EStateM.bind x f s)
    simp only [EStateM.bind]
    rw [hx.run s a pc instrPc]
    cases x s with
    | ok v s' => exact (hf v).run s' a pc instrPc
    | error e s' => rfl
  code s v s'' h := by
    change EStateM.bind x f s = _ at h
    simp only [EStateM.bind] at h
    cases hxs : x s with
    | ok w s' =>
      rw [hxs] at h
      exact ((hf w).code s' v s'' h).trans (hx.code s w s' hxs)
    | error e s' =>
      rw [hxs] at h
      cases h
  faults s e s'' h := by
    change EStateM.bind x f s = _ at h
    simp only [EStateM.bind] at h
    cases hxs : x s with
    | ok w s' =>
      rw [hxs] at h
      exact (hf w).faults s' e s'' h
    | error e' s' =>
      rw [hxs] at h
      cases h
      exact hx.faults s _ _ hxs

theorem map (hx : Blind x) (g : α → β) : Blind (g <$> x) := by
  show Blind (x >>= fun v => Pure.pure (g v))
  exact hx.bind fun v => pure (g v)

theorem ite {c : Prop} [Decidable c] {y : Act α} (hx : Blind x) (hy : Blind y) :
    Blind (if c then x else y) := by
  split
  · exact hx
  · exact hy

theorem reads {g : Frame → α} (hg : ∀ f pc instrPc, g { f with pc, instrPc } = g f) :
    Blind (Act.reads g) where
  run s a pc instrPc := by
    show EStateM.Result.ok (g { s.frame with pc, instrPc }) _ = _
    rw [hg]
    rfl
  code _ _ _ h := by cases h; rfl
  faults _ _ _ h := nomatch h

theorem readsMachine {g : Machine → α} (hg : ∀ m a, g (m.tuned a) = g m) :
    Blind (Act.readsMachine g) where
  run s a pc instrPc := by
    show EStateM.Result.ok (g (s.machine.tuned a)) _ = _
    rw [hg]
    rfl
  code _ _ _ h := by cases h; rfl
  faults _ _ _ h := nomatch h

theorem modifyFrame {g : Frame → Frame}
    (hg : ∀ f pc instrPc, g { f with pc, instrPc } = { g f with pc, instrPc })
    (hcode : ∀ f, (g f).code = f.code) : Blind (Act.modifyFrame g) where
  run s a pc instrPc := by
    show EStateM.Result.ok () (⟨s.machine.tuned a, g { s.frame with pc, instrPc }⟩ : Active) = _
    rw [hg]
    rfl
  code s _ _ h := by
    cases h
    exact hcode s.frame
  faults _ _ _ h := nomatch h

theorem internal (msg : String) : Blind (Act.internal msg : Act α) where
  run _ _ _ _ := rfl
  code _ _ _ h := nomatch h
  faults _ _ _ h := by
    cases h
    exact ⟨_, rfl⟩

theorem vm {x : Vm α} (hx : Vm.OnStore x) (hok : ∀ m, ∃ v m', x m = .ok v m') :
    Blind (Act.vm x) where
  run s a pc instrPc := by
    obtain ⟨v, m', h⟩ := hok s.machine
    have h' : x (s.seenAt a pc instrPc).machine = .ok v (m'.tuned a) := by
      rw [seenAt_machine, hx.run_tuned, h]
    rw [vm_of_ok h', vm_of_ok h]
    rfl
  code s v s' h := by
    obtain ⟨w, m', hm⟩ := hok s.machine
    rw [vm_of_ok hm] at h
    cases h
    rfl
  faults s e s' h := by
    obtain ⟨w, m', hm⟩ := hok s.machine
    rw [vm_of_ok hm] at h
    cases h

/-- Run on itself, a blind computation keeps the offsets and the adaptive state, and its
operand stack errors name the offset of the current instruction. -/
theorem run_self (hx : Blind x) (s : Active) :
    x s = resultSeenAt s.machine.tuning s.frame.pc s.frame.instrPc (x s) := by
  have h := hx.run s s.machine.tuning s.frame.pc s.frame.instrPc
  rwa [Active.seenAt_self] at h

theorem ok_seenAt (hx : Blind x) {s s' : Active} {v : α} (h : x s = .ok v s') :
    s' = s'.seenAt s.machine.tuning s.frame.pc s.frame.instrPc := by
  have hs := hx.run_self s
  rw [h] at hs
  simp only [resultSeenAt, EStateM.Result.ok.injEq] at hs
  exact hs.2

theorem pc_of_ok (hx : Blind x) {s s' : Active} {v : α} (h : x s = .ok v s') :
    s'.frame.pc = s.frame.pc := by
  rw [hx.ok_seenAt h]
  rfl

theorem instrPc_of_ok (hx : Blind x) {s s' : Active} {v : α} (h : x s = .ok v s') :
    s'.frame.instrPc = s.frame.instrPc := by
  rw [hx.ok_seenAt h]
  rfl

theorem ok_at (hx : Blind x) {s s' : Active} {v : α} (h : x s = .ok v s') (a : Tuning)
    (pc instrPc : Nat) : x (s.seenAt a pc instrPc) = .ok v (s'.seenAt a pc instrPc) := by
  rw [hx.run, h]
  rfl

end Blind

theorem bind_of_ok {x : Act α} {f : α → Act β} {s s' : Active} {v : α} (h : x s = .ok v s') :
    (x >>= f) s = f v s' := by
  show EStateM.bind x f s = _
  simp only [EStateM.bind, h]

theorem bind_of_error {x : Act α} {f : α → Act β} {s s' : Active} {e : Fault}
    (h : x s = .error e s') : (x >>= f) s = .error e s' := by
  show EStateM.bind x f s = _
  simp only [EStateM.bind, h]

theorem tryCatch_ok {x : Act α} {handle : Fault → Act α} {s s' : Active} {v : α}
    (h : x s = .ok v s') : tryCatch x handle s = .ok v s' := by
  show EStateM.tryCatch x handle s = _
  simp only [EStateM.tryCatch, h]

theorem tryCatch_bind_error {x : Act α} {handle : Fault → Act α} {f : α → Act β}
    {s s' : Active} {e : Fault} (h : x s = .error e s') :
    (tryCatch x handle >>= f) s = (handle e >>= f) s' := by
  show EStateM.bind (EStateM.tryCatch x handle) f s = EStateM.bind (handle e) f s'
  simp only [EStateM.bind, EStateM.tryCatch, h]
  rfl

theorem vm_pure_bind (v : α) (f : α → Act β) (s : Active) : (vm (Pure.pure v) >>= f) s = f v s :=
  rfl

/-- Under the frame's exception context, a computation that on the activation's store is one
on the store alone ends as it ends run directly, seen at the same offsets. -/
theorem withContext_seenAt {x y : Vm α} (hx : Vm.OnStore x) (s : Active)
    (hy : ∀ m : Machine, m.heap = s.machine.heap → y m = x m) (a : Tuning) (pc instrPc : Nat) :
    withContext y (s.seenAt a pc instrPc) = match vm x s with
      | .ok v s' => .ok v (s'.seenAt a pc instrPc)
      | .error e s' => .error e (s'.seenAt a pc instrPc) := by
  obtain ⟨m, f⟩ := s
  unfold withContext vm
  dsimp only
  rw [hy, hx.run_context, seenAt_machine, hx.run_tuned, hx m m rfl]
  · cases x m <;> rfl
  · rfl

theorem bind_congr_run {x : Act α} {f f' : α → Act β} {s : Active}
    (h : ∀ v s', x s = .ok v s' → f v s' = f' v s') : (x >>= f) s = (x >>= f') s := by
  show EStateM.bind x f s = EStateM.bind x f' s
  simp only [EStateM.bind]
  cases hx : x s with
  | ok v s' => exact h v s' hx
  | error e s' => rfl

/-! ### The adaptive paths -/

/-- A computation of the adaptive paths: it never fails, keeps the frame, and of the machine
changes the profiles and counters only. -/
structure Retunes (x : Act α) : Prop where
  run : ∀ (s : Active) (a : Tuning) (pc instrPc : Nat), ∃ v a', a'.osrThreshold = a.osrThreshold ∧
    x (s.seenAt a pc instrPc) = .ok v (s.seenAt a' pc instrPc)

namespace Retunes

variable {x : Act α} {f : α → Act β}

theorem pure (v : α) : Retunes (Pure.pure v : Act α) := ⟨fun _ a _ _ => ⟨v, a, rfl, rfl⟩⟩

theorem bind (hx : Retunes x) (hf : ∀ v, Retunes (f v)) : Retunes (x >>= f) := by
  refine ⟨fun s a pc instrPc => ?_⟩
  obtain ⟨v, a₁, h₁, hx₁⟩ := hx.run s a pc instrPc
  obtain ⟨w, a₂, h₂, hf₂⟩ := (hf v).run s a₁ pc instrPc
  refine ⟨w, a₂, h₂.trans h₁, ?_⟩
  show EStateM.bind x f _ = _
  simp only [EStateM.bind, hx₁]
  exact hf₂

theorem ite {c : Prop} [Decidable c] {y : Act α} (hx : Retunes x) (hy : Retunes y) :
    Retunes (if c then x else y) := by
  split
  · exact hx
  · exact hy

theorem reads (g : Frame → α) : Retunes (Act.reads g) := ⟨fun _ a _ _ => ⟨_, a, rfl, rfl⟩⟩

theorem readsMachine (g : Machine → α) : Retunes (Act.readsMachine g) :=
  ⟨fun _ a _ _ => ⟨_, a, rfl, rfl⟩⟩

theorem modifyMachine {g : Machine → Machine}
    (hg : ∀ m, g m = { m with profiles := (g m).profiles, stats := (g m).stats }) :
    Retunes (Act.modifyMachine g) := by
  refine ⟨fun s a pc instrPc => ?_⟩
  refine ⟨(), ⟨(g (s.machine.tuned a)).profiles, (g (s.machine.tuned a)).stats, a.osrThreshold⟩,
    rfl, ?_⟩
  show EStateM.Result.ok () (⟨g (s.machine.tuned a), _⟩ : Active) = _
  rw [hg]
  rfl

theorem count (g : Stats → Stats) : Retunes (Act.count g) := modifyMachine fun _ => rfl

theorem setSite (site : Site) : Retunes (Act.setSite site) :=
  (reads _).bind fun _ => modifyMachine fun _ => rfl

theorem site : Retunes Act.site := (reads _).bind fun _ => readsMachine _

end Retunes

theorem retunes_noteOperator (kind : SiteCache) (hits : SiteCache → Bool) :
    Retunes (noteOperator kind hits) := by
  have hguess : ∀ st, Retunes (operatorGuess st hits) := fun _ =>
    Retunes.ite (Retunes.pure _) (Retunes.ite ((Retunes.count _).bind fun _ => Retunes.pure _)
      (((Retunes.setSite _).bind fun _ => Retunes.count _).bind fun _ => Retunes.pure _))
  unfold noteOperator
  refine (Retunes.readsMachine _).bind fun _ => Retunes.ite (Retunes.pure _) ?_
  refine Retunes.site.bind fun o => ?_
  cases o with
  | none => exact Retunes.pure _
  | some st =>
    exact Retunes.ite (((Retunes.setSite _).bind fun _ => Retunes.count _).bind fun _ => hguess _)
      (hguess _)

/-! ### The operand stack and the local slots -/

section Primitives

theorem blind_stackFault_throw (overflow : Bool) (g : α → Act β) :
    Blind (do let e ← stackFault overflow; let r ← MonadExcept.throw e; g r) where
  run s a pc instrPc := by cases overflow <;> rfl
  code s v s' h := by cases overflow <;> cases h
  faults s e s' h := by
    cases overflow <;> cases h
    all_goals exact ⟨_, rfl⟩

theorem blind_push (v : Value) : Blind (push v) := by
  unfold push
  dsimp only
  exact Blind.bind (Blind.reads fun _ _ _ => rfl) fun _ =>
    Blind.ite (blind_stackFault_throw _ _) (Blind.modifyFrame (fun _ _ _ => rfl) fun _ => rfl)

theorem blind_peekAt (depth : Nat) : Blind (peekAt depth) := by
  unfold peekAt
  refine Blind.bind (Blind.reads fun _ _ _ => rfl) fun o => ?_
  cases o with
  | some v => exact Blind.pure v
  | none =>
    refine ⟨fun s a pc instrPc => ?_, (fun s v s' h => nomatch h), fun s e s' h => ?_⟩
    · cases s
      rfl
    · cases h
      exact ⟨_, rfl⟩

theorem blind_peek : Blind peek := by
  unfold peek
  refine Blind.bind (Blind.reads fun _ _ _ => rfl) fun o => ?_
  cases o with
  | some v => exact Blind.pure v
  | none =>
    refine ⟨fun s a pc instrPc => ?_, (fun s v s' h => nomatch h), fun s e s' h => ?_⟩
    · cases s
      rfl
    · cases h
      exact ⟨_, rfl⟩

theorem blind_pop : Blind pop :=
  Blind.bind blind_peek fun _ =>
    Blind.bind (Blind.modifyFrame (fun _ _ _ => rfl) fun _ => rfl) fun _ => Blind.pure _

theorem blind_popN (n : Nat) : Blind (popN n) := by
  unfold popN
  dsimp only
  exact Blind.bind (Blind.reads fun _ _ _ => rfl) fun _ =>
    Blind.ite (blind_stackFault_throw _ _)
      (Blind.bind (Blind.reads fun _ _ _ => rfl) fun _ =>
        Blind.bind (Blind.modifyFrame (fun _ _ _ => rfl) fun _ => rfl) fun _ => Blind.pure _)

theorem blind_rotate (n : Nat) : Blind (rotate n) := by
  unfold rotate
  dsimp only
  exact Blind.bind (Blind.reads fun _ _ _ => rfl) fun _ =>
    Blind.ite (blind_stackFault_throw _ _)
      (Blind.bind blind_pop fun _ => Blind.bind (blind_popN _) fun _ =>
        Blind.modifyFrame (fun _ _ _ => rfl) fun _ => rfl)

theorem blind_storeLocal (slot : Nat) (v : Value) : Blind (storeLocal slot v) := by
  unfold storeLocal
  exact Blind.bind (Blind.reads fun _ _ _ => rfl) fun _ =>
    Blind.ite (Blind.modifyFrame (fun _ _ _ => rfl) fun _ => rfl) (Blind.internal _)

variable (s : Active) (st : Array Value) (x y : Value)

theorem peek_push : peek (s.withStack (st.push y)) = .ok y (s.withStack (st.push y)) := by
  simp only [peek, bind, EStateM.bind, reads, withStack_stack, Array.back?_push, pure, EStateM.pure]

theorem pop_push : pop (s.withStack (st.push y)) = .ok y (s.withStack st) := by
  simp only [pop, bind, EStateM.bind, peek, reads, withStack_stack, Array.back?_push, pure,
    EStateM.pure, modifyFrame, Array.pop_push]
  rfl

theorem peekAt_zero : peekAt 0 (s.withStack (st.push y)) = .ok y (s.withStack (st.push y)) := by
  simp only [peekAt, bind, EStateM.bind, reads, withStack_stack, Array.size_push, Nat.zero_lt_succ,
    ↓reduceIte, Nat.add_one_sub_one, Nat.sub_zero, Nat.lt_add_one, getElem?_pos,
    Array.getElem_push_eq, pure, EStateM.pure]

theorem peekAt_one : peekAt 1 (s.withStack ((st.push x).push y)) =
    .ok x (s.withStack ((st.push x).push y)) := by
  simp only [peekAt, bind, EStateM.bind, reads, withStack_stack, Array.size_push,
    Nat.lt_add_left_iff_pos, Nat.zero_lt_succ, ↓reduceIte, Nat.add_one_sub_one, Array.getElem?_push,
    Nat.left_eq_add, Nat.succ_ne_self, Nat.lt_add_one, getElem?_pos, Array.getElem_push_eq, pure,
    EStateM.pure]

theorem popN_two : popN 2 (s.withStack ((st.push x).push y)) = .ok #[x, y] (s.withStack st) := by
  have hlt : ¬ (st.size + 1 + 1 < 2) := by omega
  simp only [popN, bind, EStateM.bind, reads, withStack, Array.size_push, hlt, ↓reduceIte,
    Nat.reduceSubDiff, Array.shrink_eq_take, Array.take_eq_extract, pure, modifyFrame,
    Nat.le_add_right, Array.extract_push_of_le, Nat.add_one_sub_one, Array.extract_eq_pop,
    Array.pop_push, EStateM.pure, EStateM.Result.ok.injEq, and_true]
  apply Array.ext
  · simp only [Array.size_extract, Array.size_push, List.size_toArray, List.length_cons,
      List.length_nil]
    omega
  · intro i h₁ h₂
    simp only [Array.size_extract, Array.size_push] at h₁
    simp only [Array.getElem_extract, Array.getElem_push]
    match i with
    | 0 => simp
    | 1 => simp

theorem stack_cases :
    s.frame.stack.back? = none ∨ ∃ (st : Array Value) (v : Value), s = s.withStack (st.push v) := by
  by_cases h : s.frame.stack.size = 0
  · left
    rw [Array.eq_empty_of_size_eq_zero h]
    rfl
  · obtain ⟨st, v, hst⟩ := Array.eq_push_of_size_ne_zero h
    exact .inr ⟨st, v, eq_withStack hst⟩

theorem stack_cases₂ :
    s.frame.stack.size ≤ 1 ∨
      ∃ (st : Array Value) (x y : Value), s = s.withStack ((st.push x).push y) := by
  by_cases h : s.frame.stack.size ≤ 1
  · exact .inl h
  · obtain ⟨st₁, y, h₁⟩ := Array.eq_push_of_size_ne_zero (show s.frame.stack.size ≠ 0 by omega)
    have hsize : st₁.size ≠ 0 := by
      have := congrArg Array.size h₁
      simp only [Array.size_push] at this
      omega
    obtain ⟨st, x, rfl⟩ := Array.eq_push_of_size_ne_zero hsize
    exact .inr ⟨st, x, y, eq_withStack h₁⟩

theorem peek_empty (h : s.frame.stack.back? = none) :
    peek s = .error (.internal (.stackUnderflow s.frame.unit.name s.frame.instrPc)) s := by
  simp only [peek, bind, EStateM.bind, reads, h, stackFault, Bool.false_eq_true, ↓reduceIte, throw,
    throwThe, MonadExceptOf.throw, EStateM.throw]

theorem pop_empty (h : s.frame.stack.back? = none) :
    pop s = .error (.internal (.stackUnderflow s.frame.unit.name s.frame.instrPc)) s := by
  simp only [pop, bind, EStateM.bind, peek, reads, h, stackFault, Bool.false_eq_true, ↓reduceIte,
    throw, throwThe, MonadExceptOf.throw, EStateM.throw]

/-- Popping two values off a stack of at most one fails with an underflow, on the activation's
machine, whatever follows. -/
theorem pop_pop_short (h : s.frame.stack.size ≤ 1) :
    ∃ t : Active, t.machine = s.machine ∧ ∀ (β : Type) (g : Value → Value → Act β),
      (pop >>= fun y => pop >>= fun x => g x y) s =
        .error (.internal (.stackUnderflow s.frame.unit.name s.frame.instrPc)) t := by
  rcases stack_cases s with hnil | ⟨st, y, hs⟩
  · exact ⟨s, rfl, fun _ _ => bind_of_error (pop_empty s hnil)⟩
  · have hst : st = #[] := by
      have := congrArg Array.size (congrArg (·.frame.stack) hs)
      simp only [withStack_stack, Array.size_push] at this
      exact Array.eq_empty_of_size_eq_zero (by omega)
    subst hst
    refine ⟨s.withStack #[], rfl, fun _ _ => ?_⟩
    rw [hs, bind_of_ok (pop_push _ _ _)]
    exact bind_of_error (pop_empty _ rfl)

theorem peekAt_one_short (h : s.frame.stack.size ≤ 1) :
    peekAt 1 s = .error (.internal (.stackUnderflow s.frame.unit.name s.frame.instrPc)) s := by
  have : ¬ 1 < s.frame.stack.size := by omega
  simp only [peekAt, bind, EStateM.bind, reads, this, ↓reduceIte, stackFault, Bool.false_eq_true,
    throw, throwThe, MonadExceptOf.throw, EStateM.throw]

end Primitives

end Act

end StackVm
