import StackVm.Value.Equality

/-! Comparisons and membership.  `==` and `!=` are value equality and never fail.  The order
comparisons compare numbers by exact value (false when a NaN takes part), strings and byte
strings lexicographically, and tuples with tuples or lists with lists by their first unequal
items, or by length when one is a prefix of the other.  Any other pairing is a `TypeError`.

Membership looks for a substring in a string, for a byte value or a byte substring in a byte
string, for an equal item in a tuple or list, and for an equal key in a dict or set, whose
needle must then be hashable. -/

namespace StackVm

namespace Heap

/-- Lexicographic order of two lists. -/
def lexOrder {α : Type} (cmp : α → α → Ordering) : List α → List α → Ordering
  | [], [] => .eq
  | [], _ :: _ => .lt
  | _ :: _, [] => .gt
  | a :: as, b :: bs =>
    match cmp a b with
    | .eq => lexOrder cmp as bs
    | o => o

/-- The order of two strings, character by character. -/
def strOrder (s t : String) : Ordering := lexOrder (fun a b => compare a.val b.val) s.toList t.toList

mutual

/-- The order of two values, `none` when a NaN makes them unordered. -/
def orderAt (h : Heap) (op : CompareOp) : Nat → Value → Value → Except Raise (Option Ordering)
  | 0, _, _ => .ok none
  | fuel + 1, x, y =>
    match h.asNum? x, h.asNum? y with
    | some a, some b => .ok (Num.compare a b)
    | _, _ =>
      match h.deref x, h.deref y with
      | some (.str s), some (.str t) => .ok (some (strOrder s t))
      | some (.bytes s), some (.bytes t) =>
        .ok (some (lexOrder (fun a b => compare a.toNat b.toNat) s.toList t.toList))
      | some (.tuple xs), some (.tuple ys) => h.orderItems op fuel xs.toList ys.toList
      | some (.list xs), some (.list ys) => h.orderItems op fuel xs.toList ys.toList
      | _, _ => .error (Raise.compareType op.symbol (h.typeName x) (h.typeName y))

/-- The order of two sequences: their first unequal items decide, then their lengths. -/
def orderItems (h : Heap) (op : CompareOp) (fuel : Nat) :
    List Value → List Value → Except Raise (Option Ordering)
  | x :: xs, y :: ys =>
    if h.eq x y then h.orderItems op fuel xs ys else h.orderAt op fuel x y
  | [], [] => .ok (some .eq)
  | [], _ :: _ => .ok (some .lt)
  | _ :: _, [] => .ok (some .gt)

end

/-- A rich comparison of two values. -/
def compareValues (h : Heap) (op : CompareOp) (x y : Value) : Except Raise Bool :=
  match op with
  | .eq => .ok (h.eq x y)
  | .ne => .ok (!h.eq x y)
  | _ => do
    match ← h.orderAt op eqDepth x y with
    | some o => pure (op.holds o)
    | none => pure false

/-- Whether `needle` occurs in `hay` as a contiguous run. -/
def isInfix {α : Type} [BEq α] (needle hay : List α) : Bool :=
  needle.isEmpty || (List.range (hay.length + 1)).any fun i => (hay.drop i).take needle.length == needle

/-- Membership of a value in a container. -/
def containsValue (h : Heap) (container needle : Value) : Except Raise Bool :=
  match h.deref container with
  | some (.str s) =>
    match h.deref needle with
    | some (.str t) => .ok (isInfix t.toList s.toList)
    | _ => .error (Raise.msg .typeError
        s!"'in <string>' requires string as left operand, not {h.typeName needle}")
  | some (.bytes b) =>
    match needle with
    | .int i => .ok (0 ≤ i && i < 256 && b.toList.contains i.toNat.toUInt8)
    | _ => match h.deref needle with
      | some (.bytes t) => .ok (isInfix t.toList b.toList)
      | _ => .error (Raise.msg .typeError
          s!"a bytes-like object is required, not '{h.typeName needle}'")
  | some (.tuple xs) | some (.list xs) => .ok (xs.any fun x => h.eq x needle)
  | some (.dict es) => do
    h.checkHashable needle
    pure (es.any fun e => h.eq e.1 needle)
  | some (.set xs) => do
    h.checkHashable needle
    pure (xs.any fun x => h.eq x needle)
  | _ => .error (Raise.msg .typeError
      s!"argument of type '{h.typeName container}' is not iterable")

end Heap

end StackVm
