import StackVm.Proofs.Activation.Handled
import StackVm.Proofs.Loop.Interpreted

/-! The height of the operand stack.  `Act.Shifts x d P` says that every run of `x` that
finishes with a result satisfying `P` leaves the operand stack `d` values higher than it found
it.  The primitives push one value, pop one or `n`, or leave the height alone; computations on
the store, the counters and the profiles never touch it.  From these, every instruction that
goes on to the next one changes the height by the builder's stack effect of its opcode and
operands, provided it does not take a jump: the conditional jumps that keep their value, and
`ForIter` when its iterator is exhausted, leave by their jump with another height, and a
back-edge always jumps. -/

namespace StackVm

namespace Vm

theorem raise_ne_ok {α : Type} (r : Raise) (m m' : Machine) (a : α) : raise r m ≠ .ok a m' := by
  intro h
  obtain ⟨-, -, -, h⟩ := EStateM.ok_of_bind_ok h
  cases h

end Vm

/-- The first operand of an instruction of `op` whose operand bytes start at `q`: one byte or a
16-bit word, as the builder writes it. -/
def CodeUnit.operandAt (u : CodeUnit) (op : Opcode) (q : Nat) : Nat :=
  if op.operandLen = 1 then u.byteAt q else u.u16At q

namespace Act

variable {α β : Type} {k : Kit}

/-- Every run of `x` that finishes with a result satisfying `P` leaves the operand stack `d`
values higher than it found it. -/
def Shifts (x : Act α) (d : Int) (P : α → Prop) : Prop :=
  ∀ s a t, x s = .ok a t → P a → (t.frame.stack.size : Int) = s.frame.stack.size + d

/-- `Shifts` whatever the result. -/
abbrev Moves (x : Act α) (d : Int) : Prop := Shifts x d fun _ => True

namespace Shifts

variable {x : Act α} {f : α → Act β} {d d₁ : Int} {P : β → Prop}

theorem pure_of_eq {a : β} (h : d = 0) : Shifts (Pure.pure a) d P := by
  intro s b t hst _
  cases hst
  omega

theorem pure {a : β} : Shifts (Pure.pure a) 0 P := pure_of_eq rfl

theorem throw (e : Fault) : Shifts (MonadExcept.throw e : Act β) d P := by
  intro s b t h
  cases h

/-- A run that finishes finished both parts: the second part moves the stack the rest of the
way. -/
theorem bind (hx : Moves x d₁) (hf : ∀ a, Shifts (f a) (d - d₁) P) : Shifts (x >>= f) d P := by
  intro s b u h hb
  obtain ⟨a, t, hxs, hft⟩ := EStateM.ok_of_bind_ok h
  have h₁ := hx s a t hxs trivial
  have h₂ := hf a t b u hft hb
  omega

theorem ite {c : Prop} [Decidable c] {y z : Act β} (hy : c → Shifts y d P)
    (hz : ¬ c → Shifts z d P) : Shifts (if c then y else z) d P := by
  split
  · exact hy ‹_›
  · exact hz ‹_›

/-- A computation that moves the stack by `d'` for every result moves it by `d'` for the
results satisfying `P`. -/
theorem of_moves {d' : Int} {y : Act β} (hy : Moves y d') (h : d' = d) : Shifts y d P :=
  fun s b t hst _ => h ▸ hy s b t hst trivial

theorem map {γ : Type} {g : γ → β} {y : Act γ} (hy : Moves y d) : Shifts (g <$> y) d P := by
  intro s b t h _
  change EStateM.map g y s = _ at h
  simp only [EStateM.map] at h
  split at h
  · cases h
    exact hy _ _ _ ‹_› trivial
  · cases h

/-- A computation that would move the stack by every amount never finishes, so nothing after it
runs. -/
theorem bind_of_never (hx : ∀ d, Moves x d) : Shifts (x >>= f) d P := by
  intro s b u h _
  obtain ⟨a, t, hxs, -⟩ := EStateM.ok_of_bind_ok h
  have h₀ := hx 0 s a t hxs trivial
  have h₁ := hx 1 s a t hxs trivial
  omega

theorem throw_bind (e : Fault) : Shifts (MonadExcept.throw e >>= f) d P := by
  intro s b t h
  cases h

theorem forIn_list {γ δ : Type} {g : γ → δ → Act (ForInStep δ)} (hg : ∀ c b, Moves (g c b) 0) :
    ∀ (xs : List γ) (b : δ), Moves (forIn xs b g) 0
  | [], b => by
    rw [List.forIn_nil]
    exact pure
  | c :: xs, b => by
    rw [List.forIn_cons]
    refine bind (hg c b) fun r => ?_
    cases r with
    | done b' => exact pure_of_eq (by omega)
    | yield b' => exact of_moves (forIn_list hg xs b') (by omega)

theorem forIn_array {γ δ : Type} {g : γ → δ → Act (ForInStep δ)} (hg : ∀ c b, Moves (g c b) 0)
    (xs : Array γ) (b : δ) : Moves (forIn xs b g) 0 := by
  rw [← Array.forIn_toList]
  exact forIn_list hg xs.toList b

theorem mapM_list {γ δ : Type} {g : γ → Act δ} (hg : ∀ c, Moves (g c) 0) :
    ∀ xs : List γ, Moves (xs.mapM g) 0
  | [] => pure
  | c :: xs => by
    rw [List.mapM_cons]
    exact bind (hg c) fun _ => bind (mapM_list hg xs) fun _ => pure_of_eq (by omega)

theorem mapM_array {γ δ : Type} {g : γ → Act δ} (hg : ∀ c, Moves (g c) 0) (xs : Array γ) :
    Moves (xs.mapM g) 0 := by
  rw [Array.mapM_eq_mapM_toList]
  exact bind (mapM_list hg xs.toList) fun _ => pure_of_eq (by omega)

theorem of_stack {y : Act β} (h : ∀ s b t, y s = .ok b t → t.frame.stack = s.frame.stack) :
    Shifts y 0 P := by
  intro s b t hst _
  rw [h s b t hst]
  omega

end Shifts

/-! ### The primitives of an activation -/

theorem moves_modifyFrame {g : Frame → Frame} (hg : ∀ f, (g f).stack = f.stack) :
    Moves (modifyFrame g) 0 :=
  Shifts.of_stack fun _ _ _ h => by cases h; exact hg _

theorem raise_ne_ok (r : Raise) (s t : Active) (a : α) : (raise r : Act α) s ≠ .ok a t := by
  intro h
  obtain ⟨m, f⟩ := s
  simp only [raise, vm] at h
  split at h
  · next hr => exact absurd hr (Vm.raise_ne_ok _ _ _ _)
  · cases h

theorem peek_ok {s t : Active} {v : Value} (h : peek s = .ok v t) :
    t = s ∧ s.frame.stack.back? = some v := by
  unfold peek at h
  rw [reads_bind_run] at h
  cases hb : s.frame.stack.back? with
  | some w =>
    simp only [hb] at h
    cases h
    exact ⟨rfl, rfl⟩
  | none =>
    simp only [hb] at h
    obtain ⟨-, -, -, h⟩ := EStateM.ok_of_bind_ok h
    cases h

theorem pop_ok {s t : Active} {v : Value} (h : pop s = .ok v t) :
    0 < s.frame.stack.size ∧ t = ⟨s.machine, { s.frame with stack := s.frame.stack.pop }⟩ := by
  unfold pop at h
  obtain ⟨w, t₁, hpeek, hrest⟩ := EStateM.ok_of_bind_ok h
  obtain ⟨ht₁, hback⟩ := peek_ok hpeek
  subst ht₁
  rw [modifyFrame_bind_run] at hrest
  cases hrest
  refine ⟨?_, rfl⟩
  rcases hs : t₁.frame.stack.size with _ | n
  · rw [Array.back?_eq_none_iff.2 (Array.size_eq_zero_iff.1 hs)] at hback
    cases hback
  · omega

theorem popN_ok_shrinks {n : Nat} {s t : Active} {items : Array Value} (h : popN n s = .ok items t) :
    n ≤ s.frame.stack.size ∧ items.size = n ∧
      t = ⟨s.machine, { s.frame with stack := s.frame.stack.shrink (s.frame.stack.size - n) }⟩ := by
  unfold popN at h
  rw [reads_bind_run] at h
  dsimp only at h
  split at h
  · obtain ⟨-, -, -, h⟩ := EStateM.ok_of_bind_ok h
    obtain ⟨-, -, -, h⟩ := EStateM.ok_of_bind_ok h
    cases h
  · rw [reads_bind_run, modifyFrame_bind_run] at h
    cases h
    refine ⟨by omega, ?_, rfl⟩
    simp only [Array.size_extract]
    omega

theorem moves_jumpTo (pc : Nat) : Moves (jumpTo pc) 0 := moves_modifyFrame fun _ => rfl

theorem land_two (n : Nat) : n &&& 2 = 2 * (n / 2 % 2) := by
  have h := Nat.and_two_pow n 1
  rw [Nat.testBit, Nat.shiftRight_eq_div_pow] at h
  rcases Nat.mod_two_eq_zero_or_one (n / 2) with h2 | h2 <;> simp_all [Nat.one_and_eq_mod_two]

end Act

end StackVm
