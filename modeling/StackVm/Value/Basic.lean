import StackVm.Exception.Class

/-! Values of the language.  `None`, booleans, machine integers, doubles and exception classes
are immediate: they are compared by value, also by `is`.  Everything else lives in the store and
is held by its address, so that a mutation through one holder is seen by every other and `is`
compares addresses.  An immediate integer always fits in a machine word; a wider integer is a
stored object. -/

namespace StackVm

/-- The address of an object in the store. -/
abbrev Addr := Nat

/-- A value: an immediate, or the address of a stored object. -/
inductive Value where
  | none
  | bool (b : Bool)
  | int (i : Int)
  | float (f : Float)
  | excType (t : ExcType)
  | ref (a : Addr)
  deriving Inhabited

namespace Value

/-- Whether the value is `None`. -/
def isNone : Value → Bool
  | none => true
  | _ => false

/-- The stored object a value refers to, if any. -/
def addr? : Value → Option Addr
  | ref a => some a
  | _ => Option.none

end Value

end StackVm
