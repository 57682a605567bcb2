/-! Doubles read as exact numbers.  A finite double is `±m · 2^e` with a natural mantissa `m`;
`decode` recovers that form from the bits, and `round` goes back: it returns the double nearest
to a non-negative rational `num / den`, a tie going to the even mantissa, and infinity past the
largest finite double.  On top of these sit the exact conversions the engine needs: integers to
doubles, decimal text to doubles, the remainder of a division (which is always exact), and the
order between an integer and a double. -/

namespace StackVm.Binary64

/-- A finite double as an exact number: `(-1)^neg · mant · 2^exp`. -/
structure Exact where
  neg : Bool
  mant : Nat
  exp : Int
  deriving Repr, Inhabited

/-- What the bits of a double denote. -/
inductive Shape where
  | nan
  | inf (neg : Bool)
  | finite (x : Exact)
  deriving Repr, Inhabited

/-- The sign bit. -/
def signBit (f : Float) : Bool := f.toBits.toNat ≥ Nat.pow 2 63

/-- Splits the bits of a double into its exact value; subnormals have exponent `-1074`. -/
def decode (f : Float) : Shape :=
  let b : Nat := f.toBits.toNat
  let neg := b ≥ Nat.pow 2 63
  let e : Nat := (b / Nat.pow 2 52) % 2048
  let m : Nat := b % Nat.pow 2 52
  if e = 2047 then (if m = 0 then .inf neg else .nan)
  else if e = 0 then .finite ⟨neg, m, -1074⟩
  else .finite ⟨neg, m + Nat.pow 2 52, (e : Int) - 1075⟩

/-- The double with the given sign bit and magnitude bits. -/
def ofParts (neg : Bool) (magnitude : Nat) : Float :=
  Float.ofBits (UInt64.ofNat ((if neg then Nat.pow 2 63 else 0) + magnitude))

/-- Positive or negative infinity. -/
def infinity (neg : Bool) : Float := ofParts neg (2047 * Nat.pow 2 52)

/-- Positive or negative zero. -/
def zero (neg : Bool) : Float := ofParts neg 0

/-- The quiet NaN with the smallest payload. -/
def nan : Float := ofParts false (2047 * Nat.pow 2 52 + Nat.pow 2 51)

/-- Rounds the quotient `q + r / d` (with `r < d`) to a natural, a tie going to the even one. -/
def roundHalfEven (q r d : Nat) : Nat :=
  if 2 * r > d then q + 1
  else if 2 * r < d then q
  else if q % 2 = 0 then q else q + 1

/-- `⌊num / (den · 2^e)⌋` with its remainder and divisor, for an exponent of either sign. -/
def scaledQuotient (num den : Nat) (e : Int) : Nat × Nat × Nat :=
  if 0 ≤ e then
    let d := den * Nat.pow 2 e.toNat
    (num / d, num % d, d)
  else
    let n := num * Nat.pow 2 (-e).toNat
    (n / den, n % den, den)

/-- The magnitude bits of the double nearest to `num / den`, ties to even. -/
def roundBits (num den : Nat) : Nat :=
  if num = 0 ∨ den = 0 then 0
  else
    let l : Int := (num.log2 : Int) - (den.log2 : Int)
    let e0 : Int := max (l - 53) (-1074)
    let (q0, _, _) := scaledQuotient num den e0
    let e : Int := if q0 ≥ Nat.pow 2 53 then e0 + 1 else e0
    let (q, r, d) := scaledQuotient num den e
    let m := roundHalfEven q r d
    let (m, e) := if m ≥ Nat.pow 2 53 then (m / 2, e + 1) else (m, e)
    if m < Nat.pow 2 52 then m
    else if e + 1075 ≥ 2047 then 2047 * Nat.pow 2 52
    else (e + 1075).toNat * Nat.pow 2 52 + (m - Nat.pow 2 52)

/-- The double nearest to `±num / den`, a tie going to the even mantissa. -/
def round (neg : Bool) (num den : Nat) : Float := ofParts neg (roundBits num den)

/-- The double nearest to an integer. -/
def ofInt (n : Int) : Float := round (n < 0) n.natAbs 1

/-- The double nearest to `±digits · 10^exp`; far-out exponents go straight to zero or infinity. -/
def ofDecimal (neg : Bool) (digits : Nat) (exp : Int) : Float :=
  if digits = 0 then zero neg
  else if exp > 400 then infinity neg
  else if exp + (Nat.repr digits).length < -400 then zero neg
  else if 0 ≤ exp then round neg (digits * Nat.pow 10 exp.toNat) 1
  else round neg digits (Nat.pow 10 (-exp).toNat)

/-- An exact value as a numerator over a power-of-two denominator: `(num, k)` means
`num / 2^k`. -/
def Exact.toScaled (x : Exact) : Int × Nat :=
  let n : Int := if x.neg then -(x.mant : Int) else x.mant
  if 0 ≤ x.exp then (n * Int.pow 2 x.exp.toNat, 0) else (n, (-x.exp).toNat)

/-- The double for an exact value `num / 2^k`, rounding to nearest. -/
def ofScaled (num : Int) (k : Nat) : Float := round (num < 0) num.natAbs (Nat.pow 2 k)

/-- The remainder of `a / b` truncated toward zero, with the sign of `a`: the C `fmod`.
It is exactly representable, so it is computed exactly. -/
def fmod (a b : Float) : Float :=
  match decode a, decode b with
  | .finite x, .finite y =>
    if y.mant = 0 then nan
    else
      let (na, ka) := x.toScaled
      let (nb, kb) := y.toScaled
      let k := max ka kb
      let ia : Int := na * Int.pow 2 (k - ka)
      let ib : Int := nb * Int.pow 2 (k - kb)
      let r : Int := ia.tmod ib
      if r = 0 then zero x.neg else ofScaled r k
  | .finite _, .inf _ => a
  | _, _ => nan

/-- The order of two finite values, by their numerators over a common power of two. -/
def Exact.compare (x y : Exact) : Ordering :=
  let (na, ka) := x.toScaled
  let (nb, kb) := y.toScaled
  Ord.compare (na * Int.pow 2 kb) (nb * Int.pow 2 ka)

/-- `BigInt::from_f64` of a finite value: its integer part, truncated toward zero. -/
def Exact.truncate (x : Exact) : Int :=
  let (num, k) := x.toScaled
  num.tdiv (Int.pow 2 k)

/-- `f64::floor` of a finite value: the largest whole number not above it, which is again a
finite double and is taken here exactly. -/
def Exact.floor (x : Exact) : Exact :=
  let (num, k) := x.toScaled
  let q := num / Int.pow 2 k
  ⟨decide (q < 0), q.natAbs, 0⟩

/-- The order of an integer against a double, without rounding the integer: a NaN leaves them
unordered and an infinity lies beyond every integer; otherwise the integer is compared with the
double's floor, and an integer equal to the floor lies below a double above its floor. -/
def compareInt (n : Int) (f : Float) : Option Ordering :=
  match decode f with
  | .nan => none
  | .inf neg => some (if neg then .gt else .lt)
  | .finite x =>
    let floor := x.floor
    match Ord.compare n floor.truncate with
    | .eq => some (if x.compare floor = .gt then .lt else .eq)
    | o => some o

/-- The exact order of two doubles; `none` when either is a NaN.  Zeros of both signs are equal. -/
def compareFloat (a b : Float) : Option Ordering :=
  match decode a, decode b with
  | .finite x, .finite y => some (x.compare y)
  | .finite _, .inf neg => some (if neg then .gt else .lt)
  | .inf neg, .finite _ => some (if neg then .lt else .gt)
  | .inf n, .inf m => some (if n = m then .eq else if n then .lt else .gt)
  | _, _ => none

/-- The integer part of a finite double, truncated toward zero. -/
def truncInt (f : Float) : Option Int :=
  match decode f with
  | .finite x => some x.truncate
  | _ => none

/-- Whether a double is finite. -/
def isFinite (f : Float) : Bool :=
  match decode f with
  | .finite _ => true
  | _ => false

/-- `f64::fract` is zero: the double is a whole number; the fraction of an infinity or a NaN is a
NaN. -/
def isIntegral (f : Float) : Bool :=
  match decode f with
  | .finite x =>
    let (num, k) := x.toScaled
    num.tmod (Int.pow 2 k) = 0
  | _ => false

end StackVm.Binary64
