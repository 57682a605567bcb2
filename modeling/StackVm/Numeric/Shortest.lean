import StackVm.Numeric.Binary64

/-! The shortest decimal that reads back as a given double.  A positive finite double `m · 2^e`
owns an interval of reals that round to it: half the gap to each neighbour, the ends included
exactly when `m` is even.  `shortest` tries grids of one, two, … seventeen significant digits:
on each grid the two points around the value are tested for membership, and the first grid
with a member decides; if both points of that grid are members the nearer one wins, and an
exact tie goes up.  Seventeen digits always suffice, so the search ends there. -/

namespace StackVm.Shortest

/-- The number `digits · 10^exp`. -/
structure Decimal where
  digits : Nat
  exp : Int
  deriving Repr, Inhabited, DecidableEq

/-- `a / b ≤ c / d` for positive `b` and `d`. -/
def fracLe (a b c d : Nat) : Bool := a * d ≤ c * b

/-- `a / b < c / d` for positive `b` and `d`. -/
def fracLt (a b c d : Nat) : Bool := a * d < c * b

/-- The number of decimal digits of a positive natural. -/
def digitCount (n : Nat) : Nat := (Nat.toDigits 10 n).length

/-- The smallest `j ≥ 1` with `v · 10^j ≥ d`, searched up to `fuel` more steps. -/
def leadingZeros (v d : Nat) : (fuel j : Nat) → Nat
  | 0, j => j
  | fuel + 1, j => if v * Nat.pow 10 j ≥ d then j else leadingZeros v d fuel (j + 1)

/-- `⌊log10 (v / d)⌋` for positive `v` and `d`. -/
def floorLog10 (v d : Nat) : Int :=
  if v ≥ d then (digitCount (v / d) : Int) - 1
  else -(leadingZeros v d 400 1 : Int)

/-- The decimal `digits · 10^exp` with trailing zeros moved into the exponent. -/
def normalize : (fuel : Nat) → Decimal → Decimal
  | 0, x => x
  | fuel + 1, x =>
    if x.digits ≠ 0 ∧ x.digits % 10 = 0 then normalize fuel ⟨x.digits / 10, x.exp + 1⟩ else x

/-- The rounding interval of the positive double `m · 2^e`, all over the common denominator
`den`: the value `v`, the gaps below and above, and whether the ends belong to it. -/
structure Interval where
  v : Nat
  below : Nat
  above : Nat
  den : Nat
  closed : Bool

/-- The interval of reals that round to `m · 2^e`; the gap below is halved at a power of two,
where the lower neighbour is nearer. -/
def interval (m : Nat) (e : Int) : Interval :=
  let a := if e - 2 ≥ 0 then Nat.pow 2 (e - 2).toNat else 1
  let den := if e - 2 ≥ 0 then 1 else Nat.pow 2 (2 - e).toNat
  let narrow := m = Nat.pow 2 52 ∧ e > -1074
  { v := 4 * m * a, below := (if narrow then 1 else 2) * a, above := 2 * a, den,
    closed := m % 2 = 0 }

/-- Whether `t · 10^k` lies in the interval. -/
def Interval.holds (I : Interval) (t : Nat) (k : Int) : Bool :=
  let (p, q) := if 0 ≤ k then (t * Nat.pow 10 k.toNat, 1) else (t, Nat.pow 10 (-k).toNat)
  let within := if I.closed then fracLe else fracLt
  within (I.v - I.below) I.den p q && within p q (I.v + I.above) I.den

/-- The candidates on the grid of `10^k`: the point below `v` (or `v` itself), whether `v` lies
on the grid, and twice the remainder against the grid step, all scaled alike. -/
def Interval.grid (I : Interval) (k : Int) : Nat × Bool × Bool :=
  let (cn, cd) :=
    if 0 ≤ k then (I.v, I.den * Nat.pow 10 k.toNat) else (I.v * Nat.pow 10 (-k).toNat, I.den)
  (cn / cd, cn % cd = 0, 2 * (cn % cd) ≥ cd)

/-- Searches the grids of `n`, `n+1`, … significant digits below the leading power `p`. -/
def search (I : Interval) (p : Int) : (fuel n : Nat) → Decimal
  | 0, n =>
    let k := p - n + 1
    let (c, exact, upper) := I.grid k
    if exact || !upper then ⟨c, k⟩ else ⟨c + 1, k⟩
  | fuel + 1, n =>
    let k := p - n + 1
    let (c, exact, upper) := I.grid k
    if exact then ⟨c, k⟩
    else
      let down := I.holds c k
      let up := I.holds (c + 1) k
      if down && up then (if upper then ⟨c + 1, k⟩ else ⟨c, k⟩)
      else if down then ⟨c, k⟩
      else if up then ⟨c + 1, k⟩
      else search I p fuel (n + 1)

/-- The shortest decimal in the rounding interval of the positive double `m · 2^e`, the one
nearest to it among those of that length. -/
def shortest (m : Nat) (e : Int) : Decimal :=
  let I := interval m e
  normalize 20 (search I (floorLog10 I.v I.den) 16 1)

end StackVm.Shortest
