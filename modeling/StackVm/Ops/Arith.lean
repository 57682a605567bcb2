import StackVm.Machine.Basic
import StackVm.Value.Kind

/-! Operators on values.  Two integers (booleans included) use integer arithmetic.  Otherwise,
when either side is a double and both are numbers, both become doubles (the left one first, an
integer too large for a double raising `OverflowError`) and double arithmetic applies; the
bitwise operators do not exist on doubles.  Otherwise strings, byte strings, tuples and lists
concatenate with `+` (a new list for lists), and a sequence times an integer, on either side,
repeats it, a negative count giving the empty sequence.  Every other pairing is a `TypeError`
naming the operator and both types. -/

namespace StackVm

namespace Ops

/-- Whether a value is a double. -/
def isFloat : Value → Bool
  | .float _ => true
  | _ => false

/-- A number as a double: an integer is rounded, or raises past the largest double. -/
def Num.toFloat : Num → Except Raise Float
  | .int i => Integer.toFloat i
  | .float f => .ok f

/-- A sequence repeated `n` times; an empty sequence stays empty however large `n` is. -/
def repeatItems {α : Type} (xs : Array α) (n : Nat) : Array α :=
  if xs.isEmpty then #[] else (List.replicate n xs).foldl (· ++ ·) #[]

/-- The largest size of a repeated string or byte string, in bytes; asking for more is a
failure of the engine itself. -/
def maxRepeatBytes : Nat := Nat.pow 2 63 - 1

/-- The error of a repeat count too large for a sequence length. -/
def repeatOverflow : Raise := Raise.msg .overflowError "cannot fit 'int' into an index-sized integer"

/-- Repeats the sequence `seq`, `count` times. -/
def repeatSeq (seq count : Value) : Vm Value := do
  let h := (← get).heap
  let n ← match h.asInt? count with
    | some i => if Integer.fits i then pure (max i 0).toNat else Vm.raise repeatOverflow
    | none => Vm.raise repeatOverflow
  match h.deref seq with
  | some (.str s) =>
    if s.isEmpty then Vm.str ""
    else if s.utf8ByteSize * n > maxRepeatBytes then throw .exhausted
    else Vm.str (String.join (List.replicate n s))
  | some (.bytes b) =>
    if b.size * n > maxRepeatBytes then throw .exhausted
    else return .ref (← Vm.alloc (.bytes ⟨repeatItems b.data n⟩))
  | some (.tuple xs) => Vm.tuple (repeatItems xs n)
  | some (.list xs) => Vm.list (repeatItems xs n)
  | _ => Vm.raise (Raise.binaryType "*" (h.typeName seq) (h.typeName count))

/-- Whether a value is a string, byte string, tuple or list. -/
def isSequence (h : Heap) (v : Value) : Bool :=
  match h.deref v with
  | some (.str _) | some (.bytes _) | some (.tuple _) | some (.list _) => true
  | _ => false

/-- The sequence operators; `none` when the operands are not a sequence pairing. -/
def sequenceBinary (op : BinaryOp) (x y : Value) : Vm (Option Value) := do
  let h := (← get).heap
  match op, h.deref x, h.deref y with
  | .add, some (.str a), some (.str b) => some <$> Vm.str (a ++ b)
  | .add, some (.bytes a), some (.bytes b) => return some (.ref (← Vm.alloc (.bytes (a ++ b))))
  | .add, some (.tuple a), some (.tuple b) => some <$> Vm.tuple (a ++ b)
  | .add, some (.list a), some (.list b) => some <$> Vm.list (a ++ b)
  | .mul, _, _ =>
    if (h.asInt? y).isSome && isSequence h x then some <$> repeatSeq x y
    else if (h.asInt? x).isSome && isSequence h y then some <$> repeatSeq y x
    else pure none
  | _, _, _ => pure none

/-- A binary operator on two values. -/
def binary (op : BinaryOp) (x y : Value) : Vm Value := do
  let h := (← get).heap
  let typeError (_ : Unit) : Raise := Raise.binaryType op.symbol (h.typeName x) (h.typeName y)
  match h.asInt? x, h.asInt? y with
  | some a, some b => Vm.num (← Vm.ofExcept (intBinary op a b))
  | _, _ =>
    let floats : Option (Num × Num) :=
      if isFloat x || isFloat y then
        match h.asNum? x, h.asNum? y with
        | some a, some b => some (a, b)
        | _, _ => none
      else none
    match floats with
    | some (a, b) =>
      let fa ← Vm.ofExcept (Num.toFloat a)
      let fb ← Vm.ofExcept (Num.toFloat b)
      match floatBinary op fa fb with
      | some r => return .float (← Vm.ofExcept r)
      | none => Vm.raise (typeError ())
    | none =>
      match ← sequenceBinary op x y with
      | some v => pure v
      | none => Vm.raise (typeError ())

/-- A unary operator on a value. -/
def unary (op : UnaryOp) (x : Value) : Vm Value := do
  let h := (← get).heap
  match op, x with
  | .not, v => pure (.bool !(h.truthy v))
  | .neg, .float f => pure (.float (-f))
  | .pos, .float f => pure (.float f)
  | _, v =>
    match op, h.asInt? v with
    | .neg, some i => Vm.int (-i)
    | .pos, some i => Vm.int i
    | .invert, some i => Vm.int (Integer.complement i)
    | _, _ => Vm.raise (Raise.unaryType op.symbol (h.typeName v))

end Ops

end StackVm
