import StackVm.Value.Kind

/-! Value equality and hashability.  Numbers are equal when their exact values are (an integer
and a double included; a NaN equals nothing), strings and byte strings by content, tuples item
by item, lists, dicts and sets by identity or else by content: lists item by item, dicts when
they have the same size and every key maps to an equal value in the other, sets when they have
the same size and every member is in the other.  Everything else is equal only to itself.

Lists, dicts and sets are unhashable, and so is a tuple holding one; dict keys and set members
must be hashable.  A dict or set finds a key by equality, so equal numbers of different kinds
are the same key. -/

namespace StackVm

namespace Heap

/-- The depth to which nested containers are compared, `2^62`, past any depth a run reaches: two
distinct containers that hold themselves are compared until the machine's stack runs out. -/
def eqDepth : Nat := 4611686018427387904

mutual

/-- Value equality, to a bounded depth. -/
def eqAt (h : Heap) : Nat → Value → Value → Bool
  | 0, _, _ => false
  | fuel + 1, x, y =>
    match h.asNum? x, h.asNum? y with
    | some a, some b => Num.compare a b == some .eq
    | _, _ =>
      match x, y with
      | .none, .none => true
      | .excType a, .excType b => a == b
      | .ref a, .ref b =>
        match h.get? a, h.get? b with
        | some (.str s), some (.str t) => s == t
        | some (.bytes s), some (.bytes t) => s.data == t.data
        | some (.tuple xs), some (.tuple ys) => h.eqItems fuel xs.toList ys.toList
        | some (.list xs), some (.list ys) => a == b || h.eqItems fuel xs.toList ys.toList
        | some (.dict xs), some (.dict ys) =>
          a == b || (xs.size == ys.size && h.dictSub fuel xs.toList ys)
        | some (.set xs), some (.set ys) =>
          a == b || (xs.size == ys.size && h.setSub fuel xs.toList ys)
        | _, _ => a == b
      | _, _ => x.same y

/-- Item-by-item equality of two sequences. -/
def eqItems (h : Heap) (fuel : Nat) : List Value → List Value → Bool
  | [], [] => true
  | x :: xs, y :: ys => h.eqAt fuel x y && h.eqItems fuel xs ys
  | _, _ => false

/-- Whether every entry of a dict maps to an equal value in another. -/
def dictSub (h : Heap) (fuel : Nat) : List (Value × Value) → Array (Value × Value) → Bool
  | [], _ => true
  | (k, v) :: rest, ys =>
    (match ys.find? (fun e => h.eqAt fuel e.1 k) with
      | some (_, w) => h.eqAt fuel v w
      | none => false) && h.dictSub fuel rest ys

/-- Whether every member of a set is in another. -/
def setSub (h : Heap) (fuel : Nat) : List Value → Array Value → Bool
  | [], _ => true
  | x :: rest, ys => ys.any (fun y => h.eqAt fuel y x) && h.setSub fuel rest ys

end

/-- Value equality. -/
def eq (h : Heap) (x y : Value) : Bool := h.eqAt eqDepth x y

/-- The first unhashable type inside a value, if any. -/
def unhashableAt (h : Heap) : Nat → Value → Option String
  | 0, _ => none
  | fuel + 1, .ref a =>
    match h.get? a with
    | some (.list _) => some "list"
    | some (.dict _) => some "dict"
    | some (.set _) => some "set"
    | some (.tuple xs) => xs.toList.findSome? (h.unhashableAt fuel)
    | _ => none
  | _, _ => none

/-- Checks that a value may be a dict key or set member. -/
def checkHashable (h : Heap) (v : Value) : Except Raise Unit :=
  match h.unhashableAt eqDepth v with
  | some t => .error (Raise.unhashable t)
  | none => .ok ()

/-- The position of a key in dict entries. -/
def findKey (h : Heap) (es : Array (Value × Value)) (k : Value) : Option Nat :=
  es.findIdx? (fun e => h.eq e.1 k)

/-- The value of a key in dict entries. -/
def lookup (h : Heap) (es : Array (Value × Value)) (k : Value) : Option Value :=
  (es.find? (fun e => h.eq e.1 k)).map (·.2)

/-- Dict entries with a key bound: an equal key keeps its place and its first spelling. -/
def insertKey (h : Heap) (es : Array (Value × Value)) (k v : Value) : Array (Value × Value) :=
  match h.findKey es k with
  | some i => es.modify i fun (k0, _) => (k0, v)
  | none => es.push (k, v)

/-- Set members with one more member, unless an equal one is there. -/
def insertMember (h : Heap) (xs : Array Value) (v : Value) : Array Value :=
  if xs.any (fun y => h.eq y v) then xs else xs.push v

end Heap

end StackVm
