import StackVm.Value.Kind
import StackVm.Numeric.FloatText
import StackVm.Text.Quote

/-! The text of a value, as `repr` writes it: `None`, `True`, decimal integers, doubles in
shortest round-trip form, quoted strings and byte strings, containers with their items
separated by `", "`, a one-item tuple with a trailing comma, `set()` for the empty set, and
angle-bracketed descriptions of everything else.  Containers are written to any depth: one that
holds itself is written until the machine's stack runs out. -/

namespace StackVm

namespace Heap

/-- The depth to which nested containers are written, `2^62`, past any depth a run reaches. -/
def reprDepth : Nat := 4611686018427387904

/-- Items written with a separator. -/
def joinWith (sep : String) (xs : List String) : String := sep.intercalate xs

mutual

/-- The text of a value, to a bounded depth. -/
def reprAt (h : Heap) : Nat → Value → String
  | 0, _ => "..."
  | _, .none => "None"
  | _, .bool true => "True"
  | _, .bool false => "False"
  | _, .int i => toString i
  | _, .float f => FloatText.render f
  | _, .excType t => "<class '" ++ t.name ++ "'>"
  | fuel + 1, .ref a => match h.get? a with
    | some o => h.objRepr fuel o
    | none => "<?>"

/-- The text of a stored object. -/
def objRepr (h : Heap) (fuel : Nat) : Obj → String
  | .bigInt i => toString i
  | .str s => Quote.string s
  | .bytes b => Quote.bytes b
  | .tuple xs =>
    "(" ++ joinWith ", " (xs.toList.map (h.reprAt fuel)) ++ (if xs.size = 1 then "," else "") ++ ")"
  | .list xs => "[" ++ joinWith ", " (xs.toList.map (h.reprAt fuel)) ++ "]"
  | .dict es =>
    "\x7b" ++ joinWith ", " (es.toList.map fun (k, v) => h.reprAt fuel k ++ ": " ++ h.reprAt fuel v)
      ++ "\x7d"
  | .set xs =>
    if xs.isEmpty then "set()" else "\x7b" ++ joinWith ", " (xs.toList.map (h.reprAt fuel)) ++ "\x7d"
  | .cell (some v) => "<cell: " ++ h.typeName v ++ ">"
  | .cell none => "<cell: empty>"
  | .code c => "<code object " ++ c.unit.name ++ ">"
  | .function f => "<function " ++ h.codeName f.code ++ ">"
  | .native n => "<built-in function " ++ n.name ++ ">"
  | .exception e =>
    match e.message with
    | some m => e.type.name ++ "(" ++ Quote.string m ++ ")"
    | none => e.type.name ++ "()"
  | .generator g => "<" ++ g.kind.typeName ++ " object " ++ g.name ++ ">"
  | .iterator _ => "<iterator>"
  | .module m => "<module '" ++ m.name ++ "'>"
  | .object o => "<" ++ o.typeName ++ " object>"
  | .globals _ => "<namespace>"

/-- The name of the code unit at an address. -/
def codeName (h : Heap) (a : Addr) : String :=
  match h.get? a with
  | some (.code c) => c.unit.name
  | _ => "?"

end

/-- The text of a value. -/
def repr (h : Heap) (v : Value) : String := h.reprAt reprDepth v

end Heap

end StackVm
