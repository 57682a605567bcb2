import StackVm.Store.Object

/-! The store: objects at addresses.  An address is handed out once and never reused, so two
values that hold the same address hold the same object, and `is` compares addresses.
Changes go through `modify`, which updates the object where it lies. -/

namespace StackVm

namespace Obj

/-- Changes a list's items. -/
def mapList (f : Array Value → Array Value) : Obj → Obj
  | .list xs => .list (f xs)
  | o => o

/-- Changes a dict's entries. -/
def mapDict (f : Array (Value × Value) → Array (Value × Value)) : Obj → Obj
  | .dict es => .dict (f es)
  | o => o

/-- Changes a set's members. -/
def mapSet (f : Array Value → Array Value) : Obj → Obj
  | .set xs => .set (f xs)
  | o => o

/-- Changes a cell's content. -/
def mapCell (f : Option Value → Option Value) : Obj → Obj
  | .cell v => .cell (f v)
  | o => o

/-- Changes an exception. -/
def mapExc (f : Exc → Exc) : Obj → Obj
  | .exception e => .exception (f e)
  | o => o

/-- Changes a generator. -/
def mapGenerator (f : Generator → Generator) : Obj → Obj
  | .generator g => .generator (f g)
  | o => o

/-- Changes an iterator. -/
def mapIter (f : Iter → Iter) : Obj → Obj
  | .iterator it => .iterator (f it)
  | o => o

/-- Changes a module. -/
def mapModule (f : Module → Module) : Obj → Obj
  | .module m => .module (f m)
  | o => o

/-- Changes a host object. -/
def mapHost (f : HostObject → HostObject) : Obj → Obj
  | .object h => .object (f h)
  | o => o

/-- Changes a namespace. -/
def mapGlobals (f : Globals → Globals) : Obj → Obj
  | .globals g => .globals (f g)
  | o => o

end Obj

/-- The store. -/
structure Heap where
  objs : Array Obj := #[]
  deriving Inhabited

namespace Heap

/-- Places an object and returns its address. -/
def alloc (h : Heap) (o : Obj) : Heap × Addr :=
  let a := h.objs.size
  ({ objs := h.objs.push o }, a)

/-- The object at an address. -/
def get? (h : Heap) (a : Addr) : Option Obj := h.objs[a]?

/-- Changes the object at an address. -/
def modify (h : Heap) (a : Addr) (f : Obj → Obj) : Heap := { objs := h.objs.modify a f }

/-- Replaces the object at an address. -/
def set (h : Heap) (a : Addr) (o : Obj) : Heap := { objs := h.objs.set! a o }

@[simp] theorem get?_alloc (h : Heap) (o : Obj) : (h.alloc o).1.get? (h.alloc o).2 = some o := by
  simp [alloc, get?]

end Heap

end StackVm
