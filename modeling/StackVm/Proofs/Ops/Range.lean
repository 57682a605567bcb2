import StackVm.Proofs.Ops.Integer
import StackVm.Proofs.Loop.Simulation
import StackVm.Proofs.Steady.Machine

/-! Iteration over `range(start, stop, step)` is exact at the limits of the machine word.

The iterator counts its items once, when `Ops.rangeIter` makes it: it takes the span between the
bounds in the direction of the step and divides it by the step's size, rounding up.  That count
is `rangeCount`, the ceiling of `(stop - start) / step` taken over the rationals, and none when
that is not positive (`rangeIter_eq`).  An item is recomputed from its position as
`start + i * step`; below the count that integer lies between the bounds, `start` included and
`stop` excluded, so between two machine integers every item is one too and is never stored as a
wide integer.  The main statement, `range_iteration_exact`, says that advancing the iterator any
number of times gives the items in order and then nothing, however often it is asked again. -/

namespace StackVm

open Integer

/-- The number of integers `start + i * step`, `i = 0, 1, …`, before `stop` is reached or passed:
`⌈(stop - start) / step⌉` over the rationals, and none when that is not positive. -/
def rangeCount (start stop step : Int) : Nat := ⌈((stop - start : Int) : ℚ) / step⌉.toNat

namespace Range

/-! ### The count -/

theorem ceil_div_eq {span w : Int} (hw : 0 < w) : ⌈(span : ℚ) / w⌉ = (span + w - 1) / w := by
  rw [Int.ceil_eq_iff]
  have hwq : (0 : ℚ) < w := by exact_mod_cast hw
  have hq := Int.mul_ediv_add_emod (span + w - 1) w
  have hr := Int.emod_nonneg (span + w - 1) (Int.ne_of_gt hw)
  have hr' := Int.emod_lt_of_pos (span + w - 1) hw
  constructor
  · rw [lt_div_iff₀ hwq]
    have : ((span + w - 1) / w - 1) * w < span := by nlinarith
    exact_mod_cast this
  · rw [div_le_iff₀ hwq]
    have : span ≤ (span + w - 1) / w * w := by nlinarith
    exact_mod_cast this

theorem spanCount_eq (span : Int) {w : Nat} (hw : 0 < w) :
    (if span ≤ 0 then 0 else (span.toNat + w - 1) / w) = ⌈(span : ℚ) / (w : Int)⌉.toNat := by
  rw [ceil_div_eq (by omega)]
  split
  · have : (span + w - 1) / w < 1 := Int.ediv_lt_of_lt_mul (by omega) (by omega)
    omega
  · have : (((span.toNat + w - 1) / w : Nat) : Int) = (span + w - 1) / w := by
      rw [Int.natCast_ediv]
      congr 1
      omega
    rw [← this, Int.toNat_natCast]

/-- `range` counts its items exactly: the span in the direction of the step, over the step's
size, rounded up. -/
theorem rangeIter_eq {start stop step : Int} (h0 : step ≠ 0) :
    Ops.rangeIter start stop step = { source := .range start step (rangeCount start stop step) } := by
  unfold Ops.rangeIter rangeCount
  dsimp only
  rw [spanCount_eq _ (by omega)]
  congr 4
  split
  · rw [show ((step.natAbs : Nat) : Int) = step by omega]
  · rw [show ((step.natAbs : Nat) : Int) = -step by omega]
    push_cast
    rw [div_neg, ← neg_div, neg_sub]

/-! ### The items -/

variable {start stop step : Int} {i : Nat}

theorem lt_div_of_lt_count (hi : i < rangeCount start stop step) :
    (i : ℚ) < ((stop - start : Int) : ℚ) / step := by
  have : (i : Int) < ⌈((stop - start : Int) : ℚ) / step⌉ := by
    unfold rangeCount at hi
    omega
  exact_mod_cast Int.lt_ceil.1 this

theorem item_mem_of_pos (hpos : 0 < step) (hi : i < rangeCount start stop step) :
    start ≤ start + i * step ∧ start + i * step < stop := by
  have hq := lt_div_of_lt_count hi
  rw [lt_div_iff₀ (by exact_mod_cast hpos)] at hq
  have : (i : Int) * step < stop - start := by exact_mod_cast hq
  have : 0 ≤ (i : Int) * step := Int.mul_nonneg (by omega) (by omega)
  omega

theorem item_mem_of_neg (hneg : step < 0) (hi : i < rangeCount start stop step) :
    stop < start + i * step ∧ start + i * step ≤ start := by
  have hq := lt_div_of_lt_count hi
  rw [lt_div_iff_of_neg (by exact_mod_cast hneg)] at hq
  have : stop - start < (i : Int) * step := by exact_mod_cast hq
  have : (i : Int) * step ≤ 0 := Int.mul_nonpos_of_nonneg_of_nonpos (by omega) (by omega)
  omega

theorem fits_item (hstart : fits start = true) (hstop : fits stop = true) (h0 : step ≠ 0)
    (hi : i < rangeCount start stop step) : fits (start + i * step) = true := by
  rw [fits_iff] at hstart hstop ⊢
  rcases lt_or_gt_of_ne h0 with hneg | hpos
  · have := item_mem_of_neg hneg hi
    omega
  · have := item_mem_of_pos hpos hi
    omega

/-! ### Advancing the iterator -/

/-- What advancing the iterator over `range(start, stop, step)` at position `i` gives. -/
def item (start stop step : Int) (i : Nat) : Option Value :=
  if i < rangeCount start stop step then some (.int (start + i * step)) else none

/-- The iterator over a range, at a position. -/
def iterAt (start stop step : Int) (i : Nat) : Obj :=
  .iterator ⟨.range start step (rangeCount start stop step), i⟩

theorem iterNext_of_lt {a : Addr} {len : Nat} (h : i < len)
    (hfits : fits (start + i * step) = true) (m : Machine) :
    Ops.iterNext a ⟨.range start step len, i⟩ m =
      .ok (some (.int (start + i * step)))
        { m with heap := m.heap.modify a (Obj.mapIter fun it => { it with index := it.index + 1 }) } := by
  simp [Ops.iterNext, Vm.int, hfits, h, bind, EStateM.bind, get, getThe, MonadStateOf.get,
    EStateM.get, pure, EStateM.pure, Functor.map, EStateM.map, Vm.modifyObj, modify, modifyGet,
    MonadStateOf.modifyGet, EStateM.modifyGet]

theorem iterNext_of_le {a : Addr} {len : Nat} (h : len ≤ i) (m : Machine) :
    Ops.iterNext a ⟨.range start step len, i⟩ m = .ok none m := by
  simp [Ops.iterNext, Nat.not_lt.2 h, bind, EStateM.bind, get, getThe, MonadStateOf.get,
    EStateM.get, pure, EStateM.pure]

variable (k : Kit) {a : Addr} {m : Machine}

theorem nextValue_of_le (ha : m.heap.get? a = some (iterAt start stop step i))
    (hi : rangeCount start stop step ≤ i) : Vm.nextValue k (.ref a) m = .ok none m := by
  rw [Act.nextValue_iterator k ha, iterNext_of_le hi]

/-- Advancing a range iterator before its end gives the item at its position, a machine integer,
and moves it to the next position. -/
theorem nextValue_of_lt (hstart : fits start = true) (hstop : fits stop = true) (h0 : step ≠ 0)
    (ha : m.heap.get? a = some (iterAt start stop step i)) (hi : i < rangeCount start stop step) :
    ∃ m', Vm.nextValue k (.ref a) m = .ok (some (.int (start + i * step))) m' ∧
      m'.heap.get? a = some (iterAt start stop step (i + 1)) := by
  refine ⟨_, by rw [Act.nextValue_iterator k ha, iterNext_of_lt hi (fits_item hstart hstop h0 hi)], ?_⟩
  simp [Heap.get?_modify_eq, ha, iterAt, Obj.mapIter]

theorem mapM_nextValue_of_le (ha : m.heap.get? a = some (iterAt start stop step i))
    (hi : rangeCount start stop step ≤ i) (N : Nat) :
    ((List.replicate N ()).mapM fun _ => Vm.nextValue k (.ref a)) m =
      .ok (List.replicate N none) m := by
  induction N with
  | zero => rfl
  | succ N ih =>
    rw [List.replicate_succ, List.mapM_cons, EStateM.run_bind_of_ok (nextValue_of_le k ha hi),
      EStateM.run_bind_of_ok ih]
    rfl

/-- `N` advances of a range iterator at position `i` give the items of the positions from `i`
on.  The induction is on `N`, with the position and the machine generalised: each advance below
the count moves the iterator one position on, and at the count the rest is nothing. -/
theorem mapM_nextValue (hstart : fits start = true) (hstop : fits stop = true) (h0 : step ≠ 0) :
    ∀ (N i : Nat) (m : Machine), m.heap.get? a = some (iterAt start stop step i) →
      ∃ m', ((List.replicate N ()).mapM fun _ => Vm.nextValue k (.ref a)) m =
        .ok ((List.range' i N).map (item start stop step)) m'
  | 0, _, m, _ => ⟨m, rfl⟩
  | N + 1, i, m, ha => by
    by_cases hi : i < rangeCount start stop step
    · obtain ⟨m₁, h₁, ha₁⟩ := nextValue_of_lt k hstart hstop h0 ha hi
      obtain ⟨m', h'⟩ := mapM_nextValue hstart hstop h0 N (i + 1) m₁ ha₁
      refine ⟨m', ?_⟩
      rw [List.replicate_succ, List.mapM_cons, EStateM.run_bind_of_ok h₁,
        EStateM.run_bind_of_ok h', List.range'_succ, List.map_cons, item, if_pos hi]
      rfl
    · refine ⟨m, ?_⟩
      rw [mapM_nextValue_of_le k ha (Nat.le_of_not_lt hi) (N + 1)]
      refine congrArg (fun l => EStateM.Result.ok l m)
        (List.eq_replicate_iff.2 ⟨by simp, ?_⟩).symm
      intro x hx
      obtain ⟨j, hj, rfl⟩ := List.mem_map.1 hx
      rw [List.mem_range'_1] at hj
      rw [item, if_neg (by omega)]

end Range

open Range

/-- Iteration over `range(start, stop, step)`, for machine-integer bounds and any step other
than zero: `N` advances of the iterator `range` made give the integers `start + i * step` at the
positions below `⌈(stop - start) / step⌉`, in order, and nothing at every later position, for
every `N`.  Each item lies between the bounds, `start` included and `stop` excluded, and is a
machine integer. -/
theorem range_iteration_exact {start stop step : Int} (hstart : fits start = true)
    (hstop : fits stop = true) (h0 : step ≠ 0) (k : Kit) {m : Machine} {a : Addr}
    (ha : m.heap.get? a = some (.iterator (Ops.rangeIter start stop step))) (N : Nat) :
    (∃ m', ((List.replicate N ()).mapM fun _ => Vm.nextValue k (.ref a)) m =
      .ok ((List.range N).map fun i =>
        if i < rangeCount start stop step then some (.int (start + i * step)) else none) m') ∧
    ∀ i < rangeCount start stop step,
      (0 < step → start ≤ start + i * step ∧ start + i * step < stop) ∧
      (step < 0 → stop < start + i * step ∧ start + i * step ≤ start) ∧
      fits (start + i * step) = true := by
  refine ⟨?_, fun i hi => ⟨fun hpos => item_mem_of_pos hpos hi,
    fun hneg => item_mem_of_neg hneg hi, fits_item hstart hstop h0 hi⟩⟩
  rw [rangeIter_eq h0] at ha
  rw [List.range_eq_range']
  exact mapM_nextValue k hstart hstop h0 N 0 m ha

/-- From the smallest machine integer to the largest in steps of `2^63 - 1`: three items, the
last one just below `stop`, then nothing. -/
theorem range_iteration_at_word_limits :
    fits (-2 ^ 63) = true ∧ fits (2 ^ 63 - 1) = true ∧ (2 ^ 63 - 1 : Int) ≠ 0 ∧
      ({ heap := ⟨#[.iterator (Ops.rangeIter (-2 ^ 63) (2 ^ 63 - 1) (2 ^ 63 - 1))]⟩ } :
        Machine).heap.get? 0 = some (.iterator (Ops.rangeIter (-2 ^ 63) (2 ^ 63 - 1) (2 ^ 63 - 1))) ∧
      ((∃ m', ((List.replicate 4 ()).mapM fun _ => Vm.nextValue Kit.exhausted (.ref 0))
          { heap := ⟨#[.iterator (Ops.rangeIter (-2 ^ 63) (2 ^ 63 - 1) (2 ^ 63 - 1))]⟩ } =
        .ok ((List.range 4).map fun i =>
          if i < rangeCount (-2 ^ 63) (2 ^ 63 - 1) (2 ^ 63 - 1) then
            some (.int ((-2 ^ 63 : Int) + i * (2 ^ 63 - 1))) else none) m') ∧
      ∀ i < rangeCount (-2 ^ 63) (2 ^ 63 - 1) (2 ^ 63 - 1),
        (0 < (2 ^ 63 - 1 : Int) → (-2 ^ 63 : Int) ≤ -2 ^ 63 + i * (2 ^ 63 - 1) ∧
          (-2 ^ 63 : Int) + i * (2 ^ 63 - 1) < 2 ^ 63 - 1) ∧
        ((2 ^ 63 - 1 : Int) < 0 → (2 ^ 63 - 1 : Int) < -2 ^ 63 + i * (2 ^ 63 - 1) ∧
          (-2 ^ 63 : Int) + i * (2 ^ 63 - 1) ≤ -2 ^ 63) ∧
        fits ((-2 ^ 63 : Int) + i * (2 ^ 63 - 1)) = true) :=
  ⟨by decide, by decide, by decide, rfl,
    range_iteration_exact (by decide) (by decide) (by decide) Kit.exhausted rfl 4⟩

end StackVm
