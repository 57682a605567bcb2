import StackVm.Store.Heap
import StackVm.Numeric.Arith

/-! What a value is, read from the store: its type name, its number if it is one, its truth,
and identity.  Booleans count as the integers 0 and 1.  `is` compares immediates by value (a
double by its bits) and stored objects by address. -/

namespace StackVm

namespace Heap

/-- The object a value refers to. -/
def deref (h : Heap) : Value → Option Obj
  | .ref a => h.get? a
  | _ => none

/-- The type name of a stored object. -/
def objTypeName : Obj → String
  | .bigInt _ => "int"
  | .str _ => "str"
  | .bytes _ => "bytes"
  | .tuple _ => "tuple"
  | .list _ => "list"
  | .dict _ => "dict"
  | .set _ => "set"
  | .cell _ => "cell"
  | .code _ => "code"
  | .function _ => "function"
  | .native _ => "builtin_function_or_method"
  | .exception e => e.type.name
  | .generator g => g.kind.typeName
  | .iterator _ => "iterator"
  | .module _ => "module"
  | .object o => o.typeName
  | .globals _ => "dict"

/-- The type name of a value, as error messages write it. -/
def typeName (h : Heap) : Value → String
  | .none => "NoneType"
  | .bool _ => "bool"
  | .int _ => "int"
  | .float _ => "float"
  | .excType _ => "type"
  | .ref a => match h.get? a with
    | some o => objTypeName o
    | none => "object"

/-- The integer a value stands for, booleans included. -/
def asInt? (h : Heap) : Value → Option Int
  | .bool b => some (if b then 1 else 0)
  | .int i => some i
  | .ref a => match h.get? a with
    | some (.bigInt i) => some i
    | _ => none
  | _ => none

/-- The number a value stands for. -/
def asNum? (h : Heap) : Value → Option Num
  | .float f => some (.float f)
  | v => (h.asInt? v).map .int

/-- The string a value holds. -/
def asStr? (h : Heap) (v : Value) : Option String :=
  match h.deref v with
  | some (.str s) => some s
  | _ => none

/-- Truth: `None`, zero, the empty containers and `False` are false; everything else is
true. -/
def truthy (h : Heap) : Value → Bool
  | .none => false
  | .bool b => b
  | .int i => i != 0
  | .float f => f != 0.0
  | .excType _ => true
  | .ref a => match h.get? a with
    | some (.bigInt i) => i != 0
    | some (.str s) => !s.isEmpty
    | some (.bytes b) => b.size != 0
    | some (.tuple xs) => !xs.isEmpty
    | some (.list xs) => !xs.isEmpty
    | some (.dict xs) => !xs.isEmpty
    | some (.set xs) => !xs.isEmpty
    | _ => true

end Heap

/-- Identity: immediates by value, doubles by their bits, stored objects by address. -/
def Value.same : Value → Value → Bool
  | .none, .none => true
  | .bool a, .bool b => a == b
  | .int a, .int b => a == b
  | .float a, .float b => a.toBits == b.toBits
  | .excType a, .excType b => a == b
  | .ref a, .ref b => a == b
  | _, _ => false

end StackVm
