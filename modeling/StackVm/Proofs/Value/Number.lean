import StackVm.Proofs.Ops.Integer
import StackVm.Value.Hash

/-! Numbers as exact values.  A finite double is a whole multiple of `2^-1074`, so scaled by
`2^1074` it is an integer; two decoded doubles with one nonzero scaled value have one sign, one
mantissa and one exponent, hence one bit pattern.  On this the equality of numbers rests: an
integer and a double, or two doubles, are equal exactly when they stand for one thing (`key`),
the scaled value of a finite number or the sign of an infinity, and a NaN for nothing.  Numbers
that stand for one thing hash alike: a whole one as the integer it equals, any other double by
bits that the thing it stands for fixes. -/

namespace StackVm.Binary64

/-- The ranges a decoded finite double keeps to: a mantissa below `2^53` with its top bit set
unless the exponent is the least one. -/
structure Exact.Normal (x : Exact) : Prop where
  exp_ge : -1074 ≤ x.exp
  mant_lt : x.mant < 2 ^ 53
  top : x.exp = -1074 ∨ 2 ^ 52 ≤ x.mant

theorem normal_of_decode {f : Float} {x : Exact} (h : decode f = .finite x) : x.Normal := by
  have hm : f.toBits.toNat % 2 ^ 52 < 2 ^ 52 := Nat.mod_lt _ (by decide)
  have he : f.toBits.toNat / 2 ^ 52 % 2048 < 2048 := Nat.mod_lt _ (by decide)
  unfold decode at h
  simp only [Nat.pow_eq, Nat.reducePow] at h hm he
  split_ifs at h <;> cases h <;> constructor <;> dsimp only <;> omega

theorem toBits_eq_of_decode_eq {a b : Float} (h : decode a = decode b) (hn : decode a ≠ .nan) :
    a.toBits = b.toBits := by
  have ha := a.toBits.toNat_lt
  have hb := b.toBits.toNat_lt
  apply UInt64.toNat_inj.mp
  unfold decode at h hn
  simp only [Nat.pow_eq, Nat.reducePow] at h hn ha hb ⊢
  split_ifs at h hn <;> simp_all [Shape.inf.injEq, Shape.finite.injEq, Exact.mk.injEq] <;> omega

/-- The signed mantissa of a finite double. -/
def Exact.signed (x : Exact) : Int := if x.neg then -(x.mant : Int) else x.mant

/-- The value of a finite double scaled by `2^1074`: an integer for every decoded double. -/
def Exact.scaled (x : Exact) : Int := x.signed * 2 ^ (x.exp + 1074).toNat

theorem Exact.toScaled_eq (x : Exact) : x.toScaled =
    if 0 ≤ x.exp then (x.signed * 2 ^ x.exp.toNat, 0) else (x.signed, (-x.exp).toNat) := rfl

theorem Exact.toScaled_spec {x : Exact} (hx : -1074 ≤ x.exp) :
    x.toScaled.2 ≤ 1074 ∧ x.toScaled.1 * 2 ^ (1074 - x.toScaled.2) = x.scaled := by
  rw [Exact.toScaled_eq, Exact.scaled]
  split
  · refine ⟨Nat.zero_le _, ?_⟩
    have he : (x.exp + 1074).toNat = x.exp.toNat + 1074 := by omega
    rw [he, pow_add, Nat.sub_zero, mul_assoc]
  · refine ⟨by omega, ?_⟩
    have he : 1074 - (-x.exp).toNat = (x.exp + 1074).toNat := by omega
    rw [he]

theorem toScaled_of_decode {f : Float} {x : Exact} (h : decode f = .finite x) :
    ∃ num k, x.toScaled = (num, k) ∧ k ≤ 1074 ∧ num * 2 ^ (1074 - k) = x.scaled := by
  obtain ⟨hk, hs⟩ := x.toScaled_spec (normal_of_decode h).exp_ge
  exact ⟨_, _, rfl, hk, hs⟩

theorem mant_eq_of_mul_pow_eq {m n d e : Nat} (hm : m < 2 ^ 53) (hn : n < 2 ^ 53)
    (hmd : d = 0 ∨ 2 ^ 52 ≤ m) (hne : e = 0 ∨ 2 ^ 52 ≤ n) (h : m * 2 ^ d = n * 2 ^ e) :
    m = n ∧ d = e := by
  have key : ∀ {m n d e : Nat}, m < 2 ^ 53 → (e = 0 ∨ 2 ^ 52 ≤ n) →
      m * 2 ^ d = n * 2 ^ e → d < e → False := by
    intro m n d e hm hne h hde
    have hm2 : m = n * 2 ^ (e - d) := by
      have : n * 2 ^ e = n * 2 ^ (e - d) * 2 ^ d := by
        rw [mul_assoc, ← pow_add, Nat.sub_add_cancel hde.le]
      rw [this] at h
      exact Nat.eq_of_mul_eq_mul_right (Nat.pow_pos (by decide)) h
    have h2 : 2 ≤ 2 ^ (e - d) := Nat.le_self_pow (by omega) 2
    have hn52 : 2 ^ 52 ≤ n := hne.resolve_left (by omega)
    have : 2 ^ 52 * 2 ≤ m := hm2 ▸ Nat.mul_le_mul hn52 h2
    omega
  rcases Nat.lt_trichotomy d e with hde | rfl | hed
  · exact (key hm hne h hde).elim
  · exact ⟨Nat.eq_of_mul_eq_mul_right (Nat.pow_pos (by decide)) h, rfl⟩
  · exact (key hn hmd h.symm hed).elim

/-- The size of a scaled value: the mantissa shifted up by the exponent's distance from the
least one. -/
theorem Exact.natAbs_scaled (x : Exact) :
    x.scaled.natAbs = x.mant * 2 ^ (x.exp + 1074).toNat := by
  unfold Exact.scaled Exact.signed
  split <;> simp [Int.natAbs_mul]

theorem Exact.eq_of_scaled_eq {x y : Exact} (hx : x.Normal) (hy : y.Normal)
    (h : x.scaled = y.scaled) (h0 : x.scaled ≠ 0) : x = y := by
  have hx0 := hx.exp_ge
  have hy0 := hy.exp_ge
  have hm := congrArg Int.natAbs h
  rw [natAbs_scaled, natAbs_scaled] at hm
  obtain ⟨hmn, hd⟩ := mant_eq_of_mul_pow_eq hx.mant_lt hy.mant_lt
    (hx.top.imp (by omega) id) (hy.top.imp (by omega) id) hm
  have he : x.exp = y.exp := by omega
  obtain ⟨s, m, e⟩ := x
  obtain ⟨t, n, e'⟩ := y
  dsimp only at hmn he
  subst hmn he
  congr
  unfold Exact.scaled Exact.signed at h h0
  dsimp only at h h0
  generalize (2 : Int) ^ (e + 1074).toNat = P at h h0
  cases s <;> cases t
  · rfl
  · simp only [Bool.false_eq_true, ↓reduceIte] at h h0
    exact (h0 (by linarith)).elim
  · simp only [Bool.false_eq_true, ↓reduceIte] at h h0
    exact (h0 (by linarith)).elim
  · rfl

theorem mul_pow_eq_iff {na nb : Int} {ka kb c : Nat} (hka : ka ≤ c) (hkb : kb ≤ c) :
    na * 2 ^ kb = nb * 2 ^ ka ↔ na * 2 ^ (c - ka) = nb * 2 ^ (c - kb) := by
  have hpa : (2 : Int) ^ ka * 2 ^ (c - ka) = 2 ^ c := by rw [← pow_add, Nat.add_sub_cancel' hka]
  have hpb : (2 : Int) ^ kb * 2 ^ (c - kb) = 2 ^ c := by rw [← pow_add, Nat.add_sub_cancel' hkb]
  constructor
  · intro h
    apply mul_right_cancel₀ (pow_ne_zero c two_ne_zero)
    linear_combination (2 ^ (c - ka) * 2 ^ (c - kb)) * h - na * 2 ^ (c - ka) * hpb +
      nb * 2 ^ (c - kb) * hpa
  · intro h
    apply mul_right_cancel₀ (pow_ne_zero (c - ka) two_ne_zero)
    apply mul_right_cancel₀ (pow_ne_zero (c - kb) two_ne_zero)
    linear_combination (2 ^ kb * 2 ^ (c - kb)) * h + nb * 2 ^ (c - kb) * hpb -
      nb * 2 ^ (c - kb) * hpa

/-! ### The order of an integer and a double -/

theorem Exact.signed_natAbs (q e : Int) : (⟨decide (q < 0), q.natAbs, e⟩ : Exact).signed = q := by
  unfold Exact.signed
  by_cases h : q < 0
  · simp [h, abs_of_neg h]
  · simp [h, abs_of_nonneg (not_lt.1 h)]

theorem Exact.toScaled_floor (x : Exact) :
    x.floor.toScaled = (x.toScaled.1 / 2 ^ x.toScaled.2, 0) := by
  rcases hp : x.toScaled with ⟨num, k⟩
  rw [Exact.floor, Exact.toScaled_eq]
  simp [hp, Exact.signed_natAbs]

theorem Exact.truncate_floor (x : Exact) : x.floor.truncate = x.toScaled.1 / 2 ^ x.toScaled.2 := by
  rw [Exact.truncate, x.toScaled_floor]
  simp

theorem Exact.compare_floor (x : Exact) :
    x.compare x.floor =
      Ord.compare x.toScaled.1 (x.toScaled.1 / 2 ^ x.toScaled.2 * 2 ^ x.toScaled.2) := by
  rw [Exact.compare, x.toScaled_floor]
  simp

/-- An integer compared with the floor of `num / P`, a tie going below when `num / P` is above its
floor, is the integer compared with `num / P`. -/
theorem compare_floor_eq {n num P : Int} (hP : 0 < P) :
    (match compare n (num / P) with
      | .eq => some (if compare num (num / P * P) = .gt then Ordering.lt else .eq)
      | o => some o) = some (compare (n * P) num) := by
  have hdiv : num % P + P * (num / P) = num := Int.emod_add_mul_ediv num P
  have hr₀ : 0 ≤ num % P := Int.emod_nonneg num hP.ne'
  have hrP : num % P < P := Int.emod_lt_of_pos num hP
  rcases lt_trichotomy n (num / P) with hlt | rfl | hgt
  · have hnP : n * P < num := by nlinarith
    rw [compare_lt_iff_lt.2 hlt, compare_lt_iff_lt.2 hnP]
  · rw [Int.compare_eq_eq.2 rfl]
    rcases hr₀.lt_or_eq with hr | hr
    · rw [compare_gt_iff_gt.2 (by linarith), compare_lt_iff_lt.2 (by linarith)]
      rfl
    · have hnum : num / P * P = num := by linarith
      rw [hnum, Int.compare_eq_eq.2 rfl]
      rfl
  · have hnP : num < n * P := by nlinarith
    rw [compare_gt_iff_gt.2 hgt, compare_gt_iff_gt.2 hnP]

/-- Against a finite double, an integer compares as its numerator scaled up against the
double's numerator: the floor and the fraction above it decide exactly that. -/
theorem compareInt_finite_eq {n : Int} {f : Float} {x : Exact} (hf : decode f = .finite x) :
    compareInt n f = some (compare (n * 2 ^ x.toScaled.2) x.toScaled.1) := by
  unfold compareInt
  rw [hf]
  simp only [x.truncate_floor, x.compare_floor]
  exact compare_floor_eq (pow_pos two_pos _)

/-- An integer equals a double exactly when the double is finite and scales to the integer's
scaled value. -/
theorem compareInt_eq_eq_iff {n : Int} {f : Float} :
    compareInt n f = some .eq ↔ ∃ x, decode f = .finite x ∧ x.scaled = n * 2 ^ 1074 := by
  cases hd : decode f with
  | nan => exact ⟨fun h => by simp [compareInt, hd] at h, fun ⟨_, h, _⟩ => nomatch h⟩
  | inf s => exact ⟨fun h => by cases s <;> simp [compareInt, hd] at h, fun ⟨_, h, _⟩ => nomatch h⟩
  | finite x =>
    obtain ⟨num, k, hp, hk, hs⟩ := toScaled_of_decode hd
    rw [compareInt_finite_eq hd]
    simp only [hp, Option.some.injEq, Shape.finite.injEq, exists_eq_left', compare_eq_iff_eq,
      ← hs]
    have hiff : n * 2 ^ k = num * 2 ^ 0 ↔ n * 2 ^ (1074 - 0) = num * 2 ^ (1074 - k) :=
      mul_pow_eq_iff (Nat.zero_le 1074) hk
    rw [pow_zero, mul_one, Nat.sub_zero] at hiff
    rw [hiff, eq_comm]

/-- Two doubles are equal exactly when both are finite with one scaled value or both are the
same infinity. -/
theorem compareFloat_eq_eq_iff {a b : Float} : compareFloat a b = some .eq ↔
    (∃ x y, decode a = .finite x ∧ decode b = .finite y ∧ x.scaled = y.scaled) ∨
      ∃ s, decode a = .inf s ∧ decode b = .inf s := by
  unfold compareFloat
  cases ha : decode a with
  | nan => simp
  | inf s =>
    cases hb : decode b with
    | nan => simp
    | inf t => cases s <;> cases t <;> simp
    | finite y => cases s <;> simp
  | finite x =>
    cases hb : decode b with
    | nan => simp
    | inf t => cases t <;> simp
    | finite y =>
      obtain ⟨na, ka, hpa, hka, hsa⟩ := toScaled_of_decode ha
      obtain ⟨nb, kb, hpb, hkb, hsb⟩ := toScaled_of_decode hb
      simp only [Exact.compare, hpa, hpb, Option.some.injEq, compare_eq_iff_eq, Integer.pow_eq,
        mul_pow_eq_iff hka hkb, hsa, hsb]
      simp

theorem truncInt_of_scaled {f : Float} {x : Exact} {n : Int} (h : decode f = .finite x)
    (hn : x.scaled = n * 2 ^ 1074) : truncInt f = some n ∧ isIntegral f = true := by
  obtain ⟨num, k, hp, hk, hs⟩ := toScaled_of_decode h
  have hnum : num = n * 2 ^ k := by
    apply mul_right_cancel₀ (pow_ne_zero (1074 - k) (two_ne_zero : (2 : Int) ≠ 0))
    rw [hs, hn, mul_assoc, ← pow_add, Nat.add_sub_cancel' hk]
  unfold truncInt isIntegral
  simp only [Exact.truncate, h, hp, hnum, Integer.pow_eq, Int.mul_tmod_left, decide_true, and_true,
    Int.mul_tdiv_cancel n (pow_ne_zero k two_ne_zero)]

theorem scaled_of_isIntegral {f : Float} {x : Exact} (h : decode f = .finite x)
    (hi : isIntegral f = true) : ∃ n : Int, x.scaled = n * 2 ^ 1074 := by
  obtain ⟨num, k, hp, hk, hs⟩ := toScaled_of_decode h
  unfold isIntegral at hi
  simp only [h, hp, Integer.pow_eq, decide_eq_true_eq] at hi
  obtain ⟨t, rfl⟩ : ∃ t, num = t * 2 ^ k := ⟨_, (Int.tdiv_mul_cancel_of_tmod_eq_zero hi).symm⟩
  exact ⟨t, by rw [← hs, mul_assoc, ← pow_add, Nat.add_sub_cancel' hk]⟩

theorem isIntegral_of_inf {f : Float} {s : Bool} (h : decode f = .inf s) :
    isIntegral f = false := by
  unfold isIntegral
  rw [h]

end StackVm.Binary64

namespace StackVm

open Binary64

theorem Hash.big_of_fits {n : Int} (hn : Integer.fits n = true) : Hash.big n = Hash.int n := by
  simp [Hash.big, hn]

/-- A double equal to an integer hashes as that integer, whichever conversion it goes through:
back from a word, or as the wide integer it truncates to, zero included. -/
theorem Hash.float_of_scaled {f : Float} {x : Exact} {n : Int} (h : decode f = .finite x)
    (hn : x.scaled = n * 2 ^ 1074) : Hash.float f = Hash.big n := by
  obtain ⟨ht, hi⟩ := truncInt_of_scaled h hn
  have hfin : isFinite f = true := by simp [isFinite, h]
  have hwide : (if n != 0 then Hash.big n else Hash.int 0) = Hash.big n := by
    by_cases hz : n = 0
    · subst hz
      exact (Hash.big_of_fits (by decide)).symm
    · simp [hz]
  simp only [Hash.float, hi, hfin, Bool.and_self, if_true, ht, hwide, Integer.ofFloat?,
    Option.filter]
  cases hfits : Integer.fits n
  · rfl
  · simp only [if_true, Hash.big_of_fits hfits, ite_self]

theorem Hash.float_of_not_integral {f : Float} (hi : isIntegral f = false) :
    Hash.float f = [.u8 2, .u64 f.toBits] := by
  simp [Hash.float, hi]

namespace Num

/-- What a number stands for when numbers are compared for equality: an integer or a finite
double its value scaled by `2^1074`, an infinity its sign, and a NaN nothing. -/
def key : Num → Option (Int ⊕ Bool)
  | .int n => some (.inl (n * 2 ^ 1074))
  | .float f =>
    match decode f with
    | .finite x => some (.inl x.scaled)
    | .inf s => some (.inr s)
    | .nan => none

theorem key_float_eq_inl {f : Float} {z : Int} :
    (Num.float f).key = some (.inl z) ↔ ∃ x, decode f = .finite x ∧ x.scaled = z := by
  unfold key
  cases h : decode f <;> simp [h]

theorem compare_eq_eq_iff {a b : Num} :
    Num.compare a b = some .eq ↔ ∃ k, a.key = some k ∧ b.key = some k := by
  cases a with
  | int m =>
    cases b with
    | int n =>
      simp only [Num.compare, key, Option.some.injEq, compare_eq_iff_eq, exists_eq_left',
        Sum.inl.injEq]
      exact ⟨fun h => h ▸ rfl, fun h => (mul_right_cancel₀ (pow_ne_zero _ two_ne_zero) h).symm⟩
    | float g =>
      rw [Num.compare, compareInt_eq_eq_iff, ← key_float_eq_inl]
      constructor
      · intro h
        exact ⟨_, rfl, h⟩
      · rintro ⟨_, hk, h⟩
        cases hk
        exact h
  | float f =>
    cases b with
    | int n =>
      rw [Num.compare, Option.map_eq_some_iff]
      simp only [Ordering.swap_eq_eq, exists_eq_right, compareInt_eq_eq_iff]
      rw [← key_float_eq_inl]
      constructor
      · intro h
        exact ⟨_, h, rfl⟩
      · rintro ⟨_, h, hk⟩
        cases hk
        exact h
    | float g =>
      rw [Num.compare, compareFloat_eq_eq_iff]
      simp only [key]
      cases decode f <;> cases decode g <;> simp [eq_comm]

/-- The writes that hash a number. -/
def hash : Num → List HashWrite
  | .int i => Hash.big i
  | .float f => Hash.float f

theorem hash_of_key_int {a : Num} {n : Int} (h : a.key = some (.inl (n * 2 ^ 1074))) :
    a.hash = Hash.big n := by
  cases a with
  | int m =>
    simp only [key, Option.some.injEq, Sum.inl.injEq] at h
    rw [hash, mul_right_cancel₀ (pow_ne_zero _ two_ne_zero) h]
  | float f =>
    obtain ⟨x, hx, hs⟩ := key_float_eq_inl.mp h
    exact Hash.float_of_scaled hx hs

theorem float_of_key_not_int {a : Num} {k : Int ⊕ Bool} (h : a.key = some k)
    (hk : ∀ n : Int, k ≠ .inl (n * 2 ^ 1074)) :
    ∃ f, a = .float f ∧ isIntegral f = false := by
  cases a with
  | int m =>
    simp only [key, Option.some.injEq] at h
    exact absurd h.symm (hk m)
  | float f =>
    refine ⟨f, rfl, ?_⟩
    cases hd : decode f with
    | finite x =>
      cases hi : isIntegral f
      · rfl
      · obtain ⟨n, hn⟩ := scaled_of_isIntegral hd hi
        simp only [key, hd, Option.some.injEq] at h
        exact absurd (h ▸ hn ▸ rfl) (hk n)
    | inf s => exact isIntegral_of_inf hd
    | nan => simp [key, hd] at h

/-- Two doubles that stand for one thing other than zero or another integer have one bit
pattern: a nonzero value has one sign, mantissa and exponent, and an infinity one sign. -/
theorem toBits_eq_of_key_eq {f g : Float} {k : Int ⊕ Bool} (hf : (Num.float f).key = some k)
    (hg : (Num.float g).key = some k) (hk : ∀ n : Int, k ≠ .inl (n * 2 ^ 1074)) :
    f.toBits = g.toBits := by
  unfold key at hf hg
  cases hdf : decode f <;> cases hdg : decode g <;>
    simp only [hdf, hdg, Option.some.injEq, reduceCtorEq] at hf hg <;> subst hf <;>
    simp only [Sum.inl.injEq, Sum.inr.injEq, reduceCtorEq] at hg
  case inf.inf s t =>
    subst hg
    exact toBits_eq_of_decode_eq (hdf.trans hdg.symm) (by simp [hdf])
  case finite.finite x y =>
    have h0 : x.scaled ≠ 0 := fun h0 => hk 0 (by rw [h0, zero_mul])
    have hxy := Exact.eq_of_scaled_eq (normal_of_decode hdf) (normal_of_decode hdg) hg.symm h0
    exact toBits_eq_of_decode_eq (by rw [hdf, hdg, hxy]) (by simp [hdf])

theorem hash_eq_of_key_eq {a b : Num} {k : Int ⊕ Bool} (ha : a.key = some k)
    (hb : b.key = some k) : a.hash = b.hash := by
  by_cases hk : ∃ n : Int, k = .inl (n * 2 ^ 1074)
  · obtain ⟨n, rfl⟩ := hk
    rw [hash_of_key_int ha, hash_of_key_int hb]
  · simp only [not_exists] at hk
    obtain ⟨f, rfl, hf⟩ := float_of_key_not_int ha hk
    obtain ⟨g, rfl, hg⟩ := float_of_key_not_int hb hk
    rw [hash, hash, Hash.float_of_not_integral hf, Hash.float_of_not_integral hg,
      toBits_eq_of_key_eq ha hb hk]

end Num

end StackVm
