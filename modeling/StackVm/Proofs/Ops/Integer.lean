import Mathlib
import StackVm.Proofs.Ops.Immediate

/-! Integer arithmetic is exact.  Two machine integers go through the checked machine operations
of `wordBinary`, which hand an operation whose result would not fit in a word to the wide path
`bigBinary`; the value layer then stores a result as a machine integer when it fits and as a
wide integer otherwise.  `exactResult` says what each operator should give as an integer: the
sum, difference and product, the two's-complement bitwise operations, the floor of the quotient
and the remainder that goes with it, the floor of `a / 2^b` for a right shift, and `a * 2^b` and
`a^b` for counts up to `2^20`.  The main statement, `integer_operators_exact`, says that both
paths give exactly that on every pair of machine integers, that a zero divisor and a negative
shift count raise, that the value of an integer is a machine integer exactly when it fits, and
that the unary operators negate, keep and complement every integer, booleans included.

The cases where the machine width shows are the ones worth the proof: the quotient of the
smallest word by `-1`, a remainder by `-1`, a left shift kept only when shifting back gives the
operand again, and a right shift by 64 places or more, which gives the sign alone. -/

namespace StackVm

namespace Integer

theorem pow_eq (a : Int) (n : Nat) : Int.pow a n = a ^ n := rfl

theorem fits_iff {i : Int} : fits i = true ↔ -2 ^ 63 ≤ i ∧ i < 2 ^ 63 := by
  unfold fits minWord maxWord
  rw [Bool.and_eq_true, decide_eq_true_iff, decide_eq_true_iff, pow_eq]
  omega

/-! ### Bitwise operations -/

theorem ldiff_eq_sub_and (x y : ℕ) : Nat.ldiff x y = x - (x &&& y) := by
  induction x using Nat.binaryRec generalizing y with
  | zero => simp [Nat.ldiff]
  | bit a m ih =>
    rw [← Nat.bit_bodd_div2 y, Nat.ldiff_bit, Nat.land_bit, ih]
    have := Nat.and_le_left (n := m) (m := y.div2)
    cases a <;> cases y.bodd <;> simp [Nat.bit_val] <;> omega

theorem bitAnd_eq_land (a b : Int) : bitAnd a b = Int.land a b := by
  cases a <;> cases b <;> simp [bitAnd, Int.land, ldiff_eq_sub_and]

theorem bitOr_eq_lor (a b : Int) : bitOr a b = Int.lor a b := by
  cases a <;> cases b <;> simp [bitOr, Int.lor, ldiff_eq_sub_and]

theorem bitXor_eq_xor (a b : Int) : bitXor a b = Int.xor a b := by
  cases a <;> cases b <;> rfl

/-! ### Floors -/

theorem fdiv_eq_floor_of_nonneg (a : Int) {b : Int} (hb : 0 ≤ b) :
    a.fdiv b = ⌊(a : ℚ) / b⌋ := by
  lift b to ℕ using hb
  rw [Int.fdiv_eq_ediv_of_nonneg a (Int.natCast_nonneg _), Int.cast_natCast,
    Rat.floor_intCast_div_natCast]

theorem fdiv_eq_floor (a b : Int) : a.fdiv b = ⌊(a : ℚ) / b⌋ := by
  rcases le_total 0 b with hb | hb
  · exact fdiv_eq_floor_of_nonneg a hb
  · rw [← Int.neg_fdiv_neg, fdiv_eq_floor_of_nonneg _ (neg_nonneg.mpr hb)]
    push_cast
    rw [neg_div_neg_eq]

theorem fmod_eq_floor (a b : Int) : a.fmod b = a - b * ⌊(a : ℚ) / b⌋ := by
  rw [Int.fmod_def, fdiv_eq_floor]

theorem shiftRight_eq_floor (a : Int) (n : Nat) : a >>> n = ⌊(a : ℚ) / 2 ^ n⌋ := by
  rw [Int.shiftRight_eq_div_pow, ← Rat.floor_intCast_div_natCast]
  push_cast
  rfl

theorem shiftRight_of_fits {a : Int} {n : Nat} (ha : fits a = true) (hn : 63 ≤ n) :
    a >>> n = if a < 0 then -1 else 0 := by
  rw [fits_iff] at ha
  have h63 : (2 : Int) ^ 63 ≤ 2 ^ n := pow_le_pow_right₀ (by norm_num) hn
  rw [Int.shiftRight_eq_div_pow]
  push_cast
  split
  · exact Int.ediv_eq_neg_one_of_neg_of_le ‹a < 0› (by omega)
  · exact Int.ediv_eq_zero_of_lt (by omega) (by omega)

/-! ### Powers and left shifts -/

theorem exponent_of_le {b : Int} (h0 : 0 ≤ b) (h : b ≤ 2 ^ 20) : exponent b = .ok b.toNat := by
  unfold exponent
  rw [if_pos ⟨h0, h⟩]

theorem wordPow_eq {a b r : Int} (h : wordPow a b = some r) : r = a ^ b.toNat := by
  unfold wordPow at h
  split at h
  · dsimp only at h
    split at h
    · cases h
      rfl
    · cases h
  · cases h

theorem shl_emod (a : Int) (s : Nat) : shl a s % 2 ^ 64 = a * 2 ^ s % 2 ^ 64 := by
  simpa [shl, wrap, pow_eq] using Int.bmod_emod (x := a * 2 ^ s) (m := Nat.pow 2 64)

/-- A left shift inside the word whose round trip succeeds lost no bits: the word is the exact
product. -/
theorem shl_of_roundTrips {a : Int} {s : Nat} (hs : s < 64) (h : shlRoundTrips a s = true) :
    shl a s = a * 2 ^ s := by
  have hback : shl a s / 2 ^ s = a := by
    simpa [shlRoundTrips, Int.shiftRight_eq_div_pow] using h
  have hpos : (0 : Int) < 2 ^ s := by positivity
  have hmod : (shl a s - a * 2 ^ s) % 2 ^ 64 = 0 := by
    rw [Int.sub_emod, shl_emod]
    simp
  have hlo : a * 2 ^ s ≤ shl a s := by
    have := Int.ediv_mul_le (shl a s) (ne_of_gt hpos)
    rw [hback] at this
    linarith
  have hhi : shl a s < a * 2 ^ s + 2 ^ s := by
    have := Int.lt_ediv_add_one_mul_self (shl a s) hpos
    rw [hback] at this
    linarith
  have h64 : (2 : Int) ^ s ≤ 2 ^ 64 := pow_le_pow_right₀ (by norm_num) hs.le
  obtain ⟨k, hk⟩ := Int.dvd_of_emod_eq_zero hmod
  have hk0 : k = 0 := by nlinarith
  rw [hk0] at hk
  linarith

/-! ### The exact results -/

/-- The integer an operator gives on two integers, where it gives one: the exact sum, difference
and product, the two's-complement bitwise operations, the floor of the quotient and the
remainder that goes with it for a nonzero divisor, the floor of `a / 2^b` for a right shift by
`b ≥ 0`, and `a * 2^b` and `a^b` for `0 ≤ b ≤ 2^20`.  True division gives a double. -/
def exactResult : BinaryOp → Int → Int → Option Int
  | .add, a, b => some (a + b)
  | .sub, a, b => some (a - b)
  | .mul, a, b => some (a * b)
  | .and, a, b => some (Int.land a b)
  | .or, a, b => some (Int.lor a b)
  | .xor, a, b => some (Int.xor a b)
  | .floorDiv, a, b => if b = 0 then none else some ⌊(a : ℚ) / b⌋
  | .mod, a, b => if b = 0 then none else some (a - b * ⌊(a : ℚ) / b⌋)
  | .rshift, a, b => if 0 ≤ b then some ⌊(a : ℚ) / 2 ^ b.toNat⌋ else none
  | .lshift, a, b => if 0 ≤ b ∧ b ≤ 2 ^ 20 then some (a * 2 ^ b.toNat) else none
  | .pow, a, b => if 0 ≤ b ∧ b ≤ 2 ^ 20 then some (a ^ b.toNat) else none
  | .div, _, _ => none

end Integer

open Integer

/-- The wide path is exact on a machine-word dividend.  The word matters for a right shift by
`2^32` places or more, which gives the sign alone. -/
theorem bigBinary_exact {op : BinaryOp} {a b r : Int} (ha : fits a = true)
    (h : exactResult op a b = some r) : bigBinary op a b = .ok (.int r) := by
  cases op with
  | add | sub | mul => cases h; rfl
  | and => cases h; rw [← bitAnd_eq_land]; rfl
  | or => cases h; rw [← bitOr_eq_lor]; rfl
  | xor => cases h; rw [← bitXor_eq_xor]; rfl
  | div => cases h
  | floorDiv =>
    simp only [exactResult] at h
    split at h
    · cases h
    · cases h
      simp only [bigBinary, if_neg ‹¬b = 0›, fdiv_eq_floor]
  | mod =>
    simp only [exactResult] at h
    split at h
    · cases h
    · cases h
      simp only [bigBinary, if_neg ‹¬b = 0›, fmod_eq_floor]
  | pow =>
    simp only [exactResult] at h
    split at h
    · obtain ⟨h0, hle⟩ := ‹0 ≤ b ∧ b ≤ 2 ^ 20›
      cases h
      simp only [bigBinary, if_neg (not_lt.mpr h0), exponent_of_le h0 hle]
      rfl
    · cases h
  | lshift =>
    simp only [exactResult] at h
    split at h
    · obtain ⟨h0, hle⟩ := ‹0 ≤ b ∧ b ≤ 2 ^ 20›
      cases h
      simp only [bigBinary, if_neg (not_lt.mpr h0), exponent_of_le h0 hle]
      rfl
    · cases h
  | rshift =>
    simp only [exactResult] at h
    split at h
    · cases h
      simp only [bigBinary, if_neg (not_lt.mpr ‹0 ≤ b›), ← shiftRight_eq_floor]
      split
      · rename_i hbig
        rw [pow_eq] at hbig
        rw [shiftRight_of_fits ha (by omega)]
      · rfl
    · cases h

/-- The machine path is exact on two words: each checked operation either keeps the machine
result, which is then the exact one, or hands the operation to the exact wide path. -/
theorem wordBinary_exact {op : BinaryOp} {a b r : Int} (ha : fits a = true) (hb : fits b = true)
    (h : exactResult op a b = some r) : wordBinary op a b = .ok (.int r) := by
  have hbig := bigBinary_exact ha h
  cases op with
  | add | sub | mul =>
    cases h
    simp only [wordBinary]
    split
    · rfl
    · exact hbig
  | and | or | xor => exact hbig
  | div => cases h
  | floorDiv =>
    simp only [exactResult] at h
    split at h
    · cases h
    · cases h
      simp only [wordBinary, if_neg ‹¬b = 0›]
      split
      · exact hbig
      · rw [fdiv_eq_floor]
  | mod =>
    simp only [exactResult] at h
    split at h
    · cases h
    · cases h
      simp only [wordBinary, if_neg ‹¬b = 0›]
      split
      · subst b
        rw [Int.cast_neg, Int.cast_one, div_neg, div_one, ← Int.cast_neg, Int.floor_intCast]
        congr 2
        ring
      · rw [fmod_eq_floor]
  | pow =>
    simp only [exactResult] at h
    split at h
    · obtain ⟨h0, -⟩ := ‹0 ≤ b ∧ b ≤ 2 ^ 20›
      cases h
      simp only [wordBinary, if_neg (not_lt.mpr h0)]
      split
      next r' hr' => rw [wordPow_eq hr']
      next => exact hbig
    · cases h
  | lshift =>
    simp only [exactResult] at h
    split at h
    · obtain ⟨h0, -⟩ := ‹0 ≤ b ∧ b ≤ 2 ^ 20›
      cases h
      simp only [wordBinary, if_neg (not_lt.mpr h0)]
      split
      · rename_i hround
        rw [shl_of_roundTrips (by omega) hround.2]
      · exact hbig
    · cases h
  | rshift =>
    simp only [exactResult] at h
    split at h
    · cases h
      simp only [wordBinary, if_neg (not_lt.mpr ‹0 ≤ b›), ← shiftRight_eq_floor]
      split
      · rw [shiftRight_of_fits ha (by omega)]
      · rfl
    · cases h

theorem intBinary_of_fits {op : BinaryOp} {a b : Int} (ha : fits a = true) (hb : fits b = true) :
    intBinary op a b = wordBinary op a b := by
  simp [intBinary, ha, hb]

/-! ### Values -/

/-- An integer value stands for its integer, and it is a machine integer exactly when the
integer fits in a word; a wider one is a new object of the store. -/
theorem Vm.int_stands_for (r : Int) (m : Machine) :
    ∃ v m', Vm.int r m = .ok v m' ∧ m'.heap.asInt? v = some r ∧ (v = .int r ↔ fits r = true) := by
  unfold Vm.int
  by_cases h : fits r = true
  · rw [if_pos h]
    exact ⟨.int r, m, rfl, rfl, by simp [h]⟩
  · rw [if_neg h]
    refine ⟨.ref m.heap.objs.size, { m with heap := (m.heap.alloc (.bigInt r)).1 }, rfl, ?_, ?_⟩
    · have := Heap.get?_alloc m.heap (.bigInt r)
      simp only [Heap.alloc] at this
      simp [Heap.asInt?, Heap.alloc, this]
    · simp [h]

theorem Ops.binary_of_intBinary {op : BinaryOp} {a b r : Int}
    (h : intBinary op a b = .ok (.int r)) : Ops.binary op (.int a) (.int b) = Vm.int r := by
  rw [Ops.binary_int, h]
  rfl

theorem Ops.unary_of_asInt {m : Machine} {v : Value} {i : Int} (h : m.heap.asInt? v = some i) :
    Ops.unary .neg v m = Vm.int (-i) m ∧ Ops.unary .pos v m = Vm.int i m ∧
      Ops.unary .invert v m = Vm.int (-i - 1) m := by
  cases v with
  | float f => simp [Heap.asInt?] at h
  | _ =>
    simp [Ops.unary, bind, EStateM.bind, get, getThe, MonadStateOf.get, EStateM.get, h,
      Integer.complement]

/-- The operators on two integers `a` and `b` compute exactly: an operator whose result is an
integer gives it on the machine path, on the wide path and as a value, and a zero divisor or a
negative shift count raises on both paths alike. -/
structure Integer.ExactOps (a b : Int) : Prop where
  result : ∀ op r, exactResult op a b = some r →
    wordBinary op a b = .ok (.int r) ∧ bigBinary op a b = .ok (.int r) ∧
      Ops.binary op (.int a) (.int b) = Vm.int r
  zeroDivisor : b = 0 →
    wordBinary .floorDiv a b =
        .error (Raise.msg .zeroDivisionError "integer division or modulo by zero") ∧
      wordBinary .mod a b = .error (Raise.msg .zeroDivisionError "integer modulo by zero") ∧
      bigBinary .floorDiv a b = wordBinary .floorDiv a b ∧ bigBinary .mod a b = wordBinary .mod a b
  negativeShift : b < 0 →
    wordBinary .lshift a b = .error (Raise.msg .valueError "negative shift count") ∧
      wordBinary .rshift a b = .error (Raise.msg .valueError "negative shift count") ∧
      bigBinary .lshift a b = wordBinary .lshift a b ∧ bigBinary .rshift a b = wordBinary .rshift a b

/-- Integer arithmetic is exact and never wraps: on two machine integers every operator whose
result is an integer gives the exact one on both paths and as a value, and a zero divisor and a
negative shift count raise; an integer value is a machine integer exactly when it fits in a
word; and negation, `+` and complement give `-i`, `i` and `-i - 1` for every integer `i`. -/
theorem integer_operators_exact :
    (∀ a b, fits a = true → fits b = true → ExactOps a b) ∧
    (∀ r (m : Machine), ∃ v m', Vm.int r m = .ok v m' ∧ m'.heap.asInt? v = some r ∧
      (v = .int r ↔ fits r = true)) ∧
    (∀ (m : Machine) v i, m.heap.asInt? v = some i →
      Ops.unary .neg v m = Vm.int (-i) m ∧ Ops.unary .pos v m = Vm.int i m ∧
        Ops.unary .invert v m = Vm.int (-i - 1) m) := by
  refine ⟨fun a b ha hb => ⟨fun op r h => ?_, fun h0 => ?_, fun hneg => ?_⟩, Vm.int_stands_for,
    fun _ _ _ h => Ops.unary_of_asInt h⟩
  · have hword := wordBinary_exact ha hb h
    refine ⟨hword, bigBinary_exact ha h, Ops.binary_of_intBinary ?_⟩
    rw [intBinary_of_fits ha hb, hword]
  · subst h0
    simp [wordBinary, bigBinary]
  · simp [wordBinary, bigBinary, hneg]

/-- The smallest word and `-1`, where floor division leaves the machine word. -/
theorem integer_operators_exact_at_min :
    fits (-2 ^ 63) = true ∧ fits (-1) = true ∧ ExactOps (-2 ^ 63) (-1) :=
  ⟨by decide, by decide, integer_operators_exact.1 _ _ (by decide) (by decide)⟩

end StackVm
