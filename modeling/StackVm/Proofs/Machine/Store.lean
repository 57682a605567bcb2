import Mathlib
import StackVm.Ops.Access

/-! Computations on the store alone.  Most computations of the operations read and write the
store and nothing else of the machine: from two machines with one store they end alike, and
they leave the rest of the machine as it was.  Such a computation runs the same whatever the
exception context and whatever the adaptive state of the engine, the profiles, counters and
compilation threshold that only the adaptive paths read (`Tuning`). -/

namespace StackVm

namespace InternalError

/-- The error as raised at another offset: an operand stack error names the offset of the
instruction that raised it. -/
def reportedAt : InternalError → Nat → InternalError
  | stackOverflow code _, o => stackOverflow code o
  | stackUnderflow code _, o => stackUnderflow code o
  | e, _ => e

@[simp] theorem reportedAt_reportedAt (e : InternalError) (o o' : Nat) :
    (e.reportedAt o).reportedAt o' = e.reportedAt o' := by
  cases e <;> rfl

end InternalError

namespace Fault

/-- The fault as raised at another offset. -/
def reportedAt : Fault → Nat → Fault
  | internal e, o => internal (e.reportedAt o)
  | e, _ => e

@[simp] theorem reportedAt_raise (a : Addr) (o : Nat) : (raise a).reportedAt o = raise a := rfl

@[simp] theorem reportedAt_internal (e : InternalError) (o : Nat) :
    (internal e).reportedAt o = internal (e.reportedAt o) := rfl

@[simp] theorem reportedAt_exhausted (o : Nat) : exhausted.reportedAt o = exhausted := rfl

@[simp] theorem reportedAt_reportedAt (e : Fault) (o o' : Nat) :
    (e.reportedAt o).reportedAt o' = e.reportedAt o' := by
  cases e <;> simp [reportedAt]

end Fault

/-- What only the adaptive paths of the engine read: the profiles of the code units, the
counters and the iteration count at which loops are compiled. -/
structure Tuning where
  profiles : Array Profile
  stats : Stats
  osrThreshold : Option Nat

namespace Machine

/-- The machine with another adaptive state. -/
def tuned (m : Machine) (a : Tuning) : Machine :=
  { m with profiles := a.profiles, stats := a.stats,
           config := { m.config with osrThreshold := a.osrThreshold } }

/-- The adaptive state of the machine. -/
def tuning (m : Machine) : Tuning := ⟨m.profiles, m.stats, m.config.osrThreshold⟩

/-- The machine as a program observes it, with its adaptive state cleared. -/
def observable (m : Machine) : Machine := m.tuned ⟨#[], {}, none⟩

variable {m m' : Machine} {a a' : Tuning}

@[simp] theorem tuned_heap : (m.tuned a).heap = m.heap := rfl
@[simp] theorem tuned_context : (m.tuned a).context = m.context := rfl
@[simp] theorem tuned_fastPaths : (m.tuned a).fastPaths = m.fastPaths := rfl
@[simp] theorem tuned_specialize : (m.tuned a).config.specialize = m.config.specialize := rfl
@[simp] theorem tuned_profiles : (m.tuned a).profiles = a.profiles := rfl
@[simp] theorem tuned_stats : (m.tuned a).stats = a.stats := rfl
@[simp] theorem tuned_osrThreshold : (m.tuned a).config.osrThreshold = a.osrThreshold := rfl
@[simp] theorem tuned_tuning : m.tuned m.tuning = m := rfl
@[simp] theorem tuning_tuned : (m.tuned a).tuning = a := rfl
@[simp] theorem tuned_tuned : (m.tuned a).tuned a' = m.tuned a' := rfl

theorem tuned_withHeap (h : Heap) : ({ m.tuned a with heap := h } : Machine) =
    ({ m with heap := h } : Machine).tuned a := rfl

theorem observable_eq_iff : m.observable = m'.observable ↔ m' = m.tuned m'.tuning := by
  constructor
  · intro h
    calc m' = m'.observable.tuned m'.tuning := rfl
      _ = m.observable.tuned m'.tuning := by rw [h]
      _ = m.tuned m'.tuning := rfl
  · intro h
    rw [h]
    rfl

end Machine

namespace Vm

variable {α β : Type}

/-- A result carried over to the machine `m`: the same outcome and store, and the rest of `m`. -/
def onto (m : Machine) : EStateM.Result Fault Machine α → EStateM.Result Fault Machine α
  | .ok a m' => .ok a { m with heap := m'.heap }
  | .error e m' => .error e { m with heap := m'.heap }

@[simp] theorem onto_ok (m m' : Machine) (a : α) :
    onto m (.ok a m') = .ok a { m with heap := m'.heap } := rfl

@[simp] theorem onto_error (m m' : Machine) (e : Fault) :
    onto m (.error e m' : EStateM.Result Fault Machine α) = .error e { m with heap := m'.heap } :=
  rfl

theorem onto_withHeap (m : Machine) (h : Heap) (r : EStateM.Result Fault Machine α) :
    onto { m with heap := h } r = onto m r := by
  cases r <;> rfl

/-- A machine computation on the store alone: from machines with one store it ends alike, and
of the machine it changes the store only. -/
def OnStore (x : Vm α) : Prop :=
  ∀ m m', m.heap = m'.heap → x m = onto m (x m')

namespace OnStore

variable {x : Vm α} {f : α → Vm β}

theorem pure (a : α) : OnStore (Pure.pure a : Vm α) := by
  intro m m' hm
  show EStateM.Result.ok a m = .ok a { m with heap := m'.heap }
  rw [← hm]

theorem throw (e : Fault) : OnStore (MonadExcept.throw e : Vm α) := by
  intro m m' hm
  show EStateM.Result.error e m = .error e { m with heap := m'.heap }
  rw [← hm]

theorem bind (hx : OnStore x) (hf : ∀ a, OnStore (f a)) : OnStore (x >>= f) := by
  intro m m' hm
  show EStateM.bind x f m = onto m (EStateM.bind x f m')
  simp only [EStateM.bind]
  rw [hx m m' hm]
  cases x m' with
  | ok a m₁ => exact (hf a { m with heap := m₁.heap } m₁ rfl).trans (onto_withHeap _ _ _)
  | error e m₁ => rfl

theorem map (hx : OnStore x) (g : α → β) : OnStore (g <$> x) := by
  show OnStore (x >>= fun a => Pure.pure (g a))
  exact hx.bind fun a => pure (g a)

theorem get_bind {f : Machine → Vm β} (hf : ∀ m, OnStore (f m))
    (hdep : ∀ m m', m.heap = m'.heap → f m = f m') : OnStore (get >>= f) := by
  intro m m' hm
  show f m m = onto m (f m' m')
  rw [hdep m m' hm]
  exact hf m' m m' hm

theorem modifyHeap (g : Heap → Heap) :
    OnStore (modify fun m => { m with heap := g m.heap } : Vm Unit) := by
  intro m m' hm
  show EStateM.Result.ok () { m with heap := g m.heap } = .ok () { m with heap := g m'.heap }
  rw [hm]

theorem ite {c : Prop} [Decidable c] {y : Vm α} (hx : OnStore x) (hy : OnStore y) :
    OnStore (if c then x else y) := by
  split
  · exact hx
  · exact hy

theorem run_tuned (hx : OnStore x) (m : Machine) (a : Tuning) :
    x (m.tuned a) = match x m with
      | .ok v m' => .ok v (m'.tuned a)
      | .error e m' => .error e (m'.tuned a) := by
  rw [hx (m.tuned a) m rfl, hx m m rfl]
  cases x m <;> rfl

/-- Under another exception context a computation on the store alone ends alike, under that
context. -/
theorem run_context (hx : OnStore x) (m : Machine) (c : Option Addr) :
    x { m with context := c } = match x m with
      | .ok v m' => .ok v { m' with context := c }
      | .error e m' => .error e { m' with context := c } := by
  rw [hx { m with context := c } m rfl, hx m m rfl]
  cases x m <;> rfl

end OnStore

theorem onStore_alloc (o : Obj) : OnStore (alloc o) := by
  intro m m' hm
  simp only [alloc, modifyGet, MonadStateOf.modifyGet, EStateM.modifyGet, hm, onto_ok]

theorem onStore_modifyObj (a : Addr) (g : Obj → Obj) : OnStore (modifyObj a g) :=
  OnStore.modifyHeap fun h => h.modify a g

theorem onStore_newExc (e : Exc) : OnStore (newExc e) := onStore_alloc _

theorem onStore_raise (r : Raise) : OnStore (raise r : Vm α) :=
  (onStore_newExc _).bind fun _ => OnStore.throw _

theorem onStore_raiseMsg (t : ExcType) (msg : String) : OnStore (raiseMsg t msg : Vm α) :=
  onStore_raise _

theorem onStore_ofExcept (x : Except Raise α) : OnStore (ofExcept x) := by
  cases x with
  | error r => exact onStore_raise r
  | ok a => exact OnStore.pure a

theorem onStore_int (i : Int) : OnStore (int i) := by
  unfold int
  exact OnStore.ite (OnStore.pure _) ((onStore_alloc _).bind fun _ => OnStore.pure _)

theorem onStore_num (r : Num) : OnStore (num r) := by
  cases r with
  | int i => exact onStore_int i
  | float f => exact OnStore.pure _

theorem num_ok (r : Num) (m : Machine) : ∃ v m', num r m = .ok v m' := by
  cases r with
  | int i =>
    show ∃ v m', int i m = .ok v m'
    unfold int
    split
    · exact ⟨_, _, rfl⟩
    · exact ⟨_, _, rfl⟩
  | float f => exact ⟨_, _, rfl⟩

theorem onStore_str (s : String) : OnStore (str s) :=
  (onStore_alloc _).bind fun _ => OnStore.pure _

/-- A machine computation that fails only by raising an exception. -/
def Raises (x : Vm α) : Prop :=
  ∀ m e m', x m = .error e m' → ∃ a, e = .raise a

namespace Raises

variable {x : Vm α} {f : α → Vm β}

theorem pure (a : α) : Raises (Pure.pure a : Vm α) := fun _ _ _ h => nomatch h

theorem bind (hx : Raises x) (hf : ∀ a, Raises (f a)) : Raises (x >>= f) := by
  intro m e m' h
  change EStateM.bind x f m = _ at h
  simp only [EStateM.bind] at h
  split at h
  case h_1 a m₁ _ => exact hf a m₁ e m' h
  case h_2 _ _ hx₁ =>
    cases h
    exact hx _ _ _ hx₁

theorem map (hx : Raises x) (g : α → β) : Raises (g <$> x) :=
  hx.bind fun a => pure (g a)

theorem ite {c : Prop} [Decidable c] {y : Vm α} (hx : Raises x) (hy : Raises y) :
    Raises (if c then x else y) := by
  split
  · exact hx
  · exact hy

theorem get_bind {f : Machine → Vm β} (hf : ∀ m, Raises (f m)) : Raises (get >>= f) :=
  fun m => hf m m

theorem modify (g : Machine → Machine) : Raises (modify g : Vm Unit) := fun _ _ _ h => nomatch h

end Raises

theorem raises_alloc (o : Obj) : Raises (alloc o) := fun _ _ _ h => nomatch h

theorem raises_raise (r : Raise) : Raises (raise r : Vm α) := by
  intro m e m' h
  cases h
  exact ⟨_, rfl⟩

theorem raises_int (i : Int) : Raises (int i) := by
  unfold int
  exact Raises.ite (Raises.pure _) ((raises_alloc _).bind fun _ => Raises.pure _)

theorem raises_str (s : String) : Raises (str s) :=
  (raises_alloc _).bind fun _ => Raises.pure _

end Vm

namespace Ops

theorem onStore_iterNext (a : Addr) (it : Iter) : Vm.OnStore (iterNext a it) := by
  have tail : ∀ item : Option Value, Vm.OnStore (if item.isSome = true then do
      Vm.modifyObj a (Obj.mapIter fun it => { it with index := it.index + 1 })
      pure item
    else pure item) := fun item =>
    Vm.OnStore.ite ((Vm.onStore_modifyObj _ _).bind fun _ => Vm.OnStore.pure _)
      (Vm.OnStore.pure _)
  unfold iterNext
  refine Vm.OnStore.get_bind (fun m => ?_) fun m m' hm => by simp only [hm]
  dsimp only
  split
  case h_1 | h_2 | h_4 => exact (Vm.OnStore.pure _).bind tail
  case h_3 =>
    split
    · exact ((Vm.onStore_str _).map _).bind tail
    · exact (Vm.OnStore.pure _).bind tail
  case h_5 =>
    exact Vm.OnStore.ite (((Vm.onStore_int _).map _).bind tail) ((Vm.OnStore.pure _).bind tail)
  case h_6 | h_7 =>
    split
    · exact Vm.OnStore.ite ((Vm.onStore_raiseMsg _ _).bind tail) ((Vm.OnStore.pure _).bind tail)
    · exact (Vm.OnStore.pure _).bind tail

/-- Advancing an iterator object fails only by raising an exception: a dict or set that
changed size during the iteration. -/
theorem raises_iterNext (a : Addr) (it : Iter) : Vm.Raises (iterNext a it) := by
  have tail : ∀ item : Option Value, Vm.Raises (if item.isSome = true then do
      Vm.modifyObj a (Obj.mapIter fun it => { it with index := it.index + 1 })
      pure item
    else pure item) := fun item =>
    Vm.Raises.ite ((Vm.Raises.modify _).bind fun _ => Vm.Raises.pure _) (Vm.Raises.pure _)
  unfold iterNext
  refine Vm.Raises.get_bind fun m => ?_
  dsimp only
  split
  case h_1 | h_2 | h_4 => exact (Vm.Raises.pure _).bind tail
  case h_3 =>
    split
    · exact ((Vm.raises_str _).map _).bind tail
    · exact (Vm.Raises.pure _).bind tail
  case h_5 =>
    exact Vm.Raises.ite (((Vm.raises_int _).map _).bind tail) ((Vm.Raises.pure _).bind tail)
  case h_6 | h_7 =>
    split
    · exact Vm.Raises.ite ((Vm.raises_raise _).bind tail) ((Vm.Raises.pure _).bind tail)
    · exact (Vm.Raises.pure _).bind tail

end Ops

end StackVm
