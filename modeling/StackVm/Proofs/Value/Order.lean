import StackVm.Proofs.Value.Number

/-! Numbers compare by what they are worth.  A finite double denotes the rational
`±mant · 2^exp`, an infinity lies above or below every other number, and a NaN has no value at
all.  The comparison of two numbers, of whatever kinds, is the comparison of their exact
values, and it is unordered exactly when a NaN takes part: no integer is rounded to a double to
be compared with one.  Value equality and the rich comparisons inherit this, so among the
numbers that are not NaN equality is an equivalence. -/

namespace StackVm

namespace Binary64

/-- The rational a finite double denotes. -/
def Exact.toRat (x : Exact) : ℚ := x.signed * 2 ^ x.exp

theorem Exact.toRat_eq_div (x : Exact) : x.toRat = (x.toScaled.1 : ℚ) / 2 ^ x.toScaled.2 := by
  rw [toScaled_eq, toRat]
  split
  · rename_i he
    obtain ⟨n, hn⟩ := Int.eq_ofNat_of_zero_le he
    simp [hn, zpow_natCast]
  · rename_i he
    obtain ⟨n, hn⟩ : ∃ n : ℕ, x.exp = -n := ⟨(-x.exp).toNat, by omega⟩
    simp [hn, zpow_neg, zpow_natCast, div_eq_mul_inv]

/-- Whether a double is a NaN. -/
def isNaN (f : Float) : Bool :=
  match decode f with
  | .nan => true
  | _ => false

end Binary64

open Binary64

theorem compare_strictMono {α β : Type} [LinearOrder α] [LinearOrder β] {f : α → β}
    (hf : StrictMono f) (a b : α) : compare (f a) (f b) = compare a b :=
  (compare_iff _ _).mpr (hf.compares.mpr ((compare_iff _ _).mp rfl))

theorem compare_mul_pow (na nb : ℤ) (ka kb : ℕ) :
    compare (na * 2 ^ kb) (nb * 2 ^ ka) = compare ((na : ℚ) / 2 ^ ka) ((nb : ℚ) / 2 ^ kb) := by
  have hp : (0 : ℚ) < 2 ^ ka * 2 ^ kb := by positivity
  have hf : StrictMono fun t : ℤ => (t : ℚ) / (2 ^ ka * 2 ^ kb) :=
    fun s t hst => div_lt_div_of_pos_right (Int.cast_lt.mpr hst) hp
  rw [← compare_strictMono hf]
  congr 1 <;> field_simp <;> push_cast <;> ring

/-- The worth of a finite number. -/
abbrev ofRat (q : ℚ) : WithBot (WithTop ℚ) := (q : WithTop ℚ)

theorem ofRat_strictMono : StrictMono ofRat := WithBot.coe_strictMono.comp WithTop.coe_strictMono

@[simp] theorem compare_ofRat (p q : ℚ) : compare (ofRat p) (ofRat q) = compare p q :=
  compare_strictMono ofRat_strictMono p q

@[simp] theorem compare_ofRat_top (q : ℚ) : compare (ofRat q) ⊤ = .lt :=
  compare_lt_iff_lt.mpr (WithBot.coe_lt_coe.mpr (WithTop.coe_lt_top q))

@[simp] theorem compare_top_ofRat (q : ℚ) : compare ⊤ (ofRat q) = .gt :=
  compare_gt_iff_gt.mpr (WithBot.coe_lt_coe.mpr (WithTop.coe_lt_top q))

@[simp] theorem compare_ofRat_bot (q : ℚ) : compare (ofRat q) ⊥ = .gt :=
  compare_gt_iff_gt.mpr (WithBot.bot_lt_coe _)

@[simp] theorem compare_bot_ofRat (q : ℚ) : compare ⊥ (ofRat q) = .lt :=
  compare_lt_iff_lt.mpr (WithBot.bot_lt_coe _)

@[simp] theorem compare_bot_top : compare (⊥ : WithBot (WithTop ℚ)) ⊤ = .lt :=
  compare_lt_iff_lt.mpr bot_lt_top

@[simp] theorem compare_top_bot : compare (⊤ : WithBot (WithTop ℚ)) ⊥ = .gt :=
  compare_gt_iff_gt.mpr bot_lt_top

namespace Num

/-- What a number is worth: an integer itself, a finite double the rational it denotes, an
infinity the bottom or the top of the order.  A NaN is worth nothing. -/
def value : Num → Option (WithBot (WithTop ℚ))
  | .int n => some (ofRat n)
  | .float f =>
    match decode f with
    | .finite x => some (ofRat x.toRat)
    | .inf neg => some (if neg then ⊥ else ⊤)
    | .nan => none

/-- Whether a number is a NaN. -/
def isNaN : Num → Bool
  | .int _ => false
  | .float f => Binary64.isNaN f

theorem value_eq_none_iff {a : Num} : a.value = none ↔ a.isNaN = true := by
  cases a with
  | int n => simp [value, isNaN]
  | float f =>
    simp only [value, isNaN, Binary64.isNaN]
    cases decode f <;> simp

/-! ### Comparing what numbers are worth -/

theorem compareInt_finite {n : ℤ} {f : Float} {x : Exact} (hf : decode f = .finite x) :
    compareInt n f = some (Ord.compare (n : ℚ) x.toRat) := by
  rw [compareInt_finite_eq hf, x.toRat_eq_div]
  rcases x.toScaled with ⟨num, k⟩
  have h := compare_mul_pow n num 0 k
  simp only [pow_zero, mul_one, div_one] at h
  rw [h]

theorem compareFloat_finite {a b : Float} {x y : Exact} (ha : decode a = .finite x)
    (hb : decode b = .finite y) : compareFloat a b = some (Ord.compare x.toRat y.toRat) := by
  unfold compareFloat
  rw [ha, hb, x.toRat_eq_div, y.toRat_eq_div]
  rcases hp : x.toScaled with ⟨na, ka⟩
  rcases hq : y.toScaled with ⟨nb, kb⟩
  simp only [Exact.compare, hp, hq, Integer.pow_eq, compare_mul_pow]

/-- A number compares with a double as with what the double is worth, and not at all with a
NaN. -/
theorem compareInt_eq_map₂ (n : ℤ) (f : Float) :
    compareInt n f = Option.map₂ Ord.compare (Num.int n).value (Num.float f).value := by
  cases hf : decode f with
  | finite x => simp [value, hf, compareInt_finite hf]
  | inf neg => cases neg <;> simp [compareInt, value, hf]
  | nan => simp [compareInt, value, hf]

theorem compare_eq_map₂_value (a b : Num) :
    Num.compare a b = Option.map₂ Ord.compare a.value b.value := by
  cases a with
  | int m =>
    cases b with
    | int n => simp [Num.compare, value, compare_strictMono Int.cast_strictMono]
    | float g => exact compareInt_eq_map₂ m g
  | float f =>
    cases b with
    | int n =>
      rw [Num.compare, compareInt_eq_map₂, Option.map_map₂, Option.map₂_swap]
      congr 1
      funext u v
      exact Std.OrientedOrd.eq_swap.symm
    | float g =>
      simp only [Num.compare, value]
      cases hf : decode f with
      | finite x =>
        cases hg : decode g with
        | finite y => simp [compareFloat_finite hf hg]
        | inf t => cases t <;> simp [compareFloat, hf, hg]
        | nan => simp [compareFloat, hf, hg]
      | inf s =>
        cases hg : decode g with
        | finite y => cases s <;> simp [compareFloat, hf, hg]
        | inf t => cases s <;> cases t <;> simp [compareFloat, hf, hg]
        | nan => simp [compareFloat, hf, hg]
      | nan => simp [compareFloat, hf]

theorem compare_eq_none_iff {a b : Num} :
    Num.compare a b = none ↔ a.isNaN = true ∨ b.isNaN = true := by
  rw [compare_eq_map₂_value, Option.map₂_eq_none_iff, value_eq_none_iff, value_eq_none_iff]

theorem compare_eq_eq_iff_value {a b : Num} :
    Num.compare a b = some .eq ↔ ∃ u, a.value = some u ∧ b.value = some u := by
  rw [compare_eq_map₂_value, Option.map₂_eq_some_iff]
  constructor
  · rintro ⟨u, v, hu, hv, he⟩
    exact ⟨u, hu, compare_eq_iff_eq.mp he ▸ hv⟩
  · rintro ⟨u, hu, hv⟩
    exact ⟨u, u, hu, hv, compare_eq_iff_eq.mpr rfl⟩

end Num

namespace Heap

variable {h : Heap} {x y : Value} {a b : Num}

theorem eq_of_asNum (hx : h.asNum? x = some a) (hy : h.asNum? y = some b) :
    h.eq x y = (Num.compare a b == some .eq) := by
  rw [eq, show eqDepth = 4611686018427387903 + 1 from rfl]
  unfold eqAt
  rw [hx, hy]

theorem orderAt_of_asNum (op : CompareOp) (hx : h.asNum? x = some a) (hy : h.asNum? y = some b) :
    h.orderAt op eqDepth x y = .ok (Num.compare a b) := by
  simp only [eqDepth, orderAt, hx, hy]

theorem eq_num_iff (hx : h.asNum? x = some a) (hy : h.asNum? y = some b) :
    h.eq x y = true ↔ ∃ u, a.value = some u ∧ b.value = some u := by
  rw [eq_of_asNum hx hy, beq_iff_eq, Num.compare_eq_eq_iff_value]

/-- A rich comparison of two numbers compares what they are worth; when a NaN takes part only
`!=` holds. -/
theorem compareValues_num (op : CompareOp) (hx : h.asNum? x = some a)
    (hy : h.asNum? y = some b) :
    h.compareValues op x y =
      .ok (((Option.map₂ Ord.compare a.value b.value).map op.holds).getD (op == .ne)) := by
  rw [← Num.compare_eq_map₂_value]
  cases op with
  | eq => cases hc : Num.compare a b <;> simp [compareValues, eq_of_asNum hx hy, hc, CompareOp.holds]
  | ne =>
    cases hc : Num.compare a b <;>
      simp [compareValues, eq_of_asNum hx hy, hc, CompareOp.holds, bne]
  | _ =>
    cases hc : Num.compare a b <;>
      simp [compareValues, orderAt_of_asNum _ hx hy, hc, bind, Except.bind, pure, Except.pure]

theorem value_of_not_isNaN (ha : a.isNaN = false) : ∃ u, a.value = some u :=
  Option.ne_none_iff_exists'.mp fun hn => by simp [Num.value_eq_none_iff.mp hn] at ha

theorem eq_equivalence (h : Heap) :
    Equivalence fun x y : {v : Value // ∃ a, h.asNum? v = some a ∧ a.isNaN = false} =>
      h.eq x.1 y.1 = true := by
  refine ⟨fun x => ?_, fun {x y} hxy => ?_, fun {x y z} hxy hyz => ?_⟩
  · obtain ⟨a, hx, ha⟩ := x.2
    obtain ⟨u, hu⟩ := value_of_not_isNaN ha
    exact (eq_num_iff hx hx).mpr ⟨u, hu, hu⟩
  · obtain ⟨a, hx, -⟩ := x.2
    obtain ⟨b, hy, -⟩ := y.2
    obtain ⟨u, hu, hv⟩ := (eq_num_iff hx hy).mp hxy
    exact (eq_num_iff hy hx).mpr ⟨u, hv, hu⟩
  · obtain ⟨a, hx, -⟩ := x.2
    obtain ⟨b, hy, -⟩ := y.2
    obtain ⟨c, hz, -⟩ := z.2
    obtain ⟨u, hu, hv⟩ := (eq_num_iff hx hy).mp hxy
    obtain ⟨v, hv', hw⟩ := (eq_num_iff hy hz).mp hyz
    rw [hv, Option.some.injEq] at hv'
    exact (eq_num_iff hx hz).mpr ⟨u, hu, hv' ▸ hw⟩

end Heap

/-- Numbers compare exactly.  Two numbers of any kinds are unordered exactly when a NaN takes
part, and otherwise compare as what they are worth; equality of values and the rich comparisons
of two numbers follow that comparison, and among the numbers that are not NaN equality is an
equivalence. -/
theorem numbers_compare_exactly (h : Heap) :
    (∀ a b : Num, Num.compare a b = none ↔ a.isNaN = true ∨ b.isNaN = true) ∧
    (∀ a b : Num, Num.compare a b = Option.map₂ Ord.compare a.value b.value) ∧
    (∀ (x y : Value) (a b : Num), h.asNum? x = some a → h.asNum? y = some b →
      (h.eq x y = true ↔ ∃ u, a.value = some u ∧ b.value = some u) ∧
      ∀ op, h.compareValues op x y =
        .ok (((Option.map₂ Ord.compare a.value b.value).map op.holds).getD (op == .ne))) ∧
    Equivalence fun x y : {v : Value // ∃ a, h.asNum? v = some a ∧ a.isNaN = false} =>
      h.eq x.1 y.1 = true :=
  ⟨fun _ _ => Num.compare_eq_none_iff, Num.compare_eq_map₂_value,
    fun _ _ _ _ hx hy => ⟨Heap.eq_num_iff hx hy, fun op => Heap.compareValues_num op hx hy⟩,
    Heap.eq_equivalence h⟩

/-- The double `2^53`. -/
def twoPow53 : Float := Float.ofBits 0x4340000000000000

theorem decode_twoPow53 : decode twoPow53 = .finite ⟨false, 2 ^ 52, 1⟩ := by
  have hb : twoPow53.toBits = 0x4340000000000000 := by decide
  unfold decode
  rw [hb]
  rfl

/-- `2^53 + 1` is not the double `2^53` it would round to. -/
theorem word_past_doubles_unequal :
    (default : Heap).asNum? (.int 9007199254740993) = some (.int 9007199254740993) ∧
      (default : Heap).asNum? (.float twoPow53) = some (.float twoPow53) ∧
      (default : Heap).eq (.int 9007199254740993) (.float twoPow53) = false := by
  have hx : (default : Heap).asNum? (.int 9007199254740993) = some (.int 9007199254740993) := rfl
  have hy : (default : Heap).asNum? (.float twoPow53) = some (.float twoPow53) := rfl
  refine ⟨hx, hy, Bool.eq_false_iff.mpr fun he => ?_⟩
  obtain ⟨u, hu, hv⟩ := ((numbers_compare_exactly default).2.2.1 _ _ _ _ hx hy).1.mp he
  simp only [Num.value, decode_twoPow53, Exact.toRat, Exact.signed, Option.some.injEq] at hu hv
  rw [← hu] at hv
  have := ofRat_strictMono.injective hv
  norm_num at this

end StackVm
