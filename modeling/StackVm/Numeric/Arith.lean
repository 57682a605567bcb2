import StackVm.Numeric.Binary64
import StackVm.Exception.Class
import StackVm.Operator

/-! Arithmetic on the numeric tower.  Integers are unbounded here; a result is a machine integer
when it fits in 64 bits, which the value layer decides when it stores it.  Two machine integers
go through the checked machine operations, which hand an operation whose result would not fit
to the path of wide integers.  The only places where the machine width shows are the limits of
the exponent of `**` and of the shift count of `<<`: a power or a shift of machine integers
whose result fits is always computed, while any other power or shift needs an exponent of at
most `2^20`.  Division by zero, negative shifts and integers too large for a double are raised
as exceptions.  Mixed comparisons are exact: an integer is never rounded to a double to be
compared with one. -/

namespace StackVm

/-- A number: an integer or a double. -/
inductive Num where
  | int (i : Int)
  | float (f : Float)
  deriving Inhabited

namespace Integer

/-- The smallest machine integer, `-2^63`. -/
def minWord : Int := -Int.pow 2 63

/-- The largest machine integer, `2^63 - 1`. -/
def maxWord : Int := Int.pow 2 63 - 1

/-- Whether an integer fits in a machine word. -/
def fits (i : Int) : Bool := minWord ≤ i && i ≤ maxWord

/-- `f64::to_i64`: the integer part of a double from `-2^63` up to below `2^63`, which is where
it fits a machine word. -/
def ofFloat? (f : Float) : Option Int := (Binary64.truncInt f).filter fits

/-- The bitwise complement `-i - 1`. -/
def complement (i : Int) : Int := -i - 1

/-- Bitwise and in two's complement, for integers of any size. -/
def bitAnd (a b : Int) : Int :=
  match a, b with
  | .ofNat x, .ofNat y => .ofNat (x &&& y)
  | .ofNat x, .negSucc y => .ofNat (x - (x &&& y))
  | .negSucc x, .ofNat y => .ofNat (y - (y &&& x))
  | .negSucc x, .negSucc y => .negSucc (x ||| y)

/-- Bitwise or in two's complement, for integers of any size. -/
def bitOr (a b : Int) : Int :=
  match a, b with
  | .ofNat x, .ofNat y => .ofNat (x ||| y)
  | .ofNat x, .negSucc y => .negSucc (y - (y &&& x))
  | .negSucc x, .ofNat y => .negSucc (x - (x &&& y))
  | .negSucc x, .negSucc y => .negSucc (x &&& y)

/-- Bitwise exclusive or in two's complement, for integers of any size. -/
def bitXor (a b : Int) : Int :=
  match a, b with
  | .ofNat x, .ofNat y => .ofNat (x ^^^ y)
  | .ofNat x, .negSucc y => .negSucc (x ^^^ y)
  | .negSucc x, .ofNat y => .negSucc (x ^^^ y)
  | .negSucc x, .negSucc y => .ofNat (x ^^^ y)

/-- The largest exponent or shift count accepted outside the machine-word fast path. -/
def maxExponent : Nat := Nat.pow 2 20

/-- An exponent or shift count, if it is at most `maxExponent`. -/
def exponent (b : Int) : Except Raise Nat :=
  if 0 ≤ b ∧ b ≤ maxExponent then .ok b.toNat
  else .error (Raise.msg .overflowError "exponent too large")

/-- The double nearest to an integer, or an `OverflowError` past the largest double. -/
def toFloat (i : Int) : Except Raise Float :=
  let f := Binary64.ofInt i
  if f.isFinite then .ok f
  else .error (Raise.msg .overflowError "int too large to convert to float")

/-- `a ** b` on machine integers when it is computed without widening: the exponent fits in 32
bits and the result in a machine word. -/
def wordPow (a b : Int) : Option Int :=
  if b < Int.pow 2 32 ∧ (a.natAbs ≤ 1 ∨ b < 64) then
    let r := Int.pow a b.toNat
    if fits r then some r else none
  else none

/-- The machine word holding the low 64 bits of an integer, read in two's complement. -/
def wrap (i : Int) : Int := i.bmod (Nat.pow 2 64)

/-- A machine word shifted left by `s` places inside the word: the bits shifted past the top
are lost. -/
def shl (a : Int) (s : Nat) : Int := wrap (a * Int.pow 2 s)

/-- Whether a machine word shifted left by `s` places and shifted back right gives the word
again: the test that the shift lost no bits. -/
def shlRoundTrips (a : Int) (s : Nat) : Bool := shl a s >>> s == a

end Integer

/-- `a ** b` on doubles; a zero base with a negative exponent is a division by zero. -/
def floatPow (a b : Float) : Except Raise Float :=
  if a == 0.0 && b < 0.0 then
    .error (Raise.msg .zeroDivisionError "0.0 cannot be raised to a negative power")
  else .ok (a.pow b)

/-- The remainder of a float division, with the sign of the divisor. -/
def floatMod (a b : Float) : Float :=
  let r := Binary64.fmod a b
  if r != 0.0 && ((r < 0.0) != (b < 0.0)) then r + b else r

/-- A binary operator on integers of any size, the path taken when an operand is wide or a
machine operation overflows.  It is exact, except that `**` and `<<` need an exponent of at most
`maxExponent`, and a right shift by `2^32` places or more gives the sign alone. -/
def bigBinary (op : BinaryOp) (a b : Int) : Except Raise Num :=
  match op with
  | .add => .ok (.int (a + b))
  | .sub => .ok (.int (a - b))
  | .mul => .ok (.int (a * b))
  | .div =>
    if b = 0 then .error (Raise.msg .zeroDivisionError "division by zero")
    else do
      let x ← Integer.toFloat a
      let y ← Integer.toFloat b
      pure (.float (x / y))
  | .floorDiv =>
    if b = 0 then .error (Raise.msg .zeroDivisionError "integer division or modulo by zero")
    else .ok (.int (a.fdiv b))
  | .mod =>
    if b = 0 then .error (Raise.msg .zeroDivisionError "integer modulo by zero")
    else .ok (.int (a.fmod b))
  | .pow =>
    if b < 0 then do
      let x ← Integer.toFloat a
      let y ← Integer.toFloat b
      .float <$> floatPow x y
    else do
      let e ← Integer.exponent b
      pure (.int (Int.pow a e))
  | .and => .ok (.int (Integer.bitAnd a b))
  | .or => .ok (.int (Integer.bitOr a b))
  | .xor => .ok (.int (Integer.bitXor a b))
  | .lshift =>
    if b < 0 then .error (Raise.msg .valueError "negative shift count")
    else do
      let e ← Integer.exponent b
      pure (.int (a * Int.pow 2 e))
  | .rshift =>
    if b < 0 then .error (Raise.msg .valueError "negative shift count")
    else if b ≥ Int.pow 2 32 then .ok (.int (if a < 0 then -1 else 0))
    else .ok (.int (a >>> b.toNat))

/-- A binary operator on two machine integers.  Each operation is the checked machine one:
when its result would not fit in a word it is done again by `bigBinary`.  The quotient of the
smallest word by `-1` is such a case; a remainder by `-1` is zero outright; a left shift by
fewer than 63 places is kept when shifting back gives the operand again; a right shift by 64
places or more gives the sign. -/
def wordBinary (op : BinaryOp) (a b : Int) : Except Raise Num :=
  let checked (r : Int) : Except Raise Num :=
    if Integer.fits r then .ok (.int r) else bigBinary op a b
  match op with
  | .add => checked (a + b)
  | .sub => checked (a - b)
  | .mul => checked (a * b)
  | .div =>
    if b = 0 then .error (Raise.msg .zeroDivisionError "division by zero")
    else .ok (.float (Binary64.ofInt a / Binary64.ofInt b))
  | .floorDiv =>
    if b = 0 then .error (Raise.msg .zeroDivisionError "integer division or modulo by zero")
    else if a = Integer.minWord ∧ b = -1 then bigBinary op a b
    else .ok (.int (a.fdiv b))
  | .mod =>
    if b = 0 then .error (Raise.msg .zeroDivisionError "integer modulo by zero")
    else if b = -1 then .ok (.int 0)
    else .ok (.int (a.fmod b))
  | .pow =>
    if b < 0 then .float <$> floatPow (Binary64.ofInt a) (Binary64.ofInt b)
    else match Integer.wordPow a b with
      | some r => .ok (.int r)
      | none => bigBinary op a b
  | .and => .ok (.int (Integer.bitAnd a b))
  | .or => .ok (.int (Integer.bitOr a b))
  | .xor => .ok (.int (Integer.bitXor a b))
  | .lshift =>
    if b < 0 then .error (Raise.msg .valueError "negative shift count")
    else if b < 63 ∧ Integer.shlRoundTrips a b.toNat then .ok (.int (Integer.shl a b.toNat))
    else bigBinary op a b
  | .rshift =>
    if b < 0 then .error (Raise.msg .valueError "negative shift count")
    else if b ≥ 64 then .ok (.int (if a < 0 then -1 else 0))
    else .ok (.int (a >>> b.toNat))

/-- A binary operator on two integers: the machine path when both fit in a word, the wide path
otherwise. -/
def intBinary (op : BinaryOp) (a b : Int) : Except Raise Num :=
  if Integer.fits a && Integer.fits b then wordBinary op a b else bigBinary op a b

/-- A binary operator on two doubles; `none` for the bitwise operators, which doubles lack. -/
def floatBinary (op : BinaryOp) (a b : Float) : Option (Except Raise Float) :=
  match op with
  | .add => some (.ok (a + b))
  | .sub => some (.ok (a - b))
  | .mul => some (.ok (a * b))
  | .div =>
    some (if b == 0.0 then .error (Raise.msg .zeroDivisionError "float division by zero")
      else .ok (a / b))
  | .floorDiv =>
    some (if b == 0.0 then .error (Raise.msg .zeroDivisionError "float floor division by zero")
      else .ok (a / b).floor)
  | .mod =>
    some (if b == 0.0 then .error (Raise.msg .zeroDivisionError "float modulo by zero")
      else .ok (floatMod a b))
  | .pow => some (floatPow a b)
  | _ => none

namespace Num

/-- The exact order of two numbers; `none` when a NaN takes part. -/
def compare : Num → Num → Option Ordering
  | .int a, .int b => some (Ord.compare a b)
  | .float a, .float b => Binary64.compareFloat a b
  | .int a, .float b => Binary64.compareInt a b
  | .float a, .int b => (Binary64.compareInt b a).map Ordering.swap

end Num

end StackVm
