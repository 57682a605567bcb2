import StackVm.Code.Error

/-! Exception handler tables.  A range protects the offsets `[start, stop)`: a failure at such
an offset cuts the operand stack back to the range's depth, pushes the exception and continues
at the handler.  The table lists ranges innermost first and lookup takes the first range that
contains the offset, so a range nested in another must come before it; assembling a unit
checks that order.  A compact encoding stores each range as three words, the start, the end
(which is also the handler) and the depth in the low sixteen bits of the third word. -/

namespace StackVm

/-- One protected range and where its failures go. -/
structure HandlerRange where
  start : Nat
  stop : Nat
  handler : Nat
  depth : Nat
  deriving DecidableEq, Repr, Inhabited

namespace HandlerRange

/-- Whether the range protects an offset. -/
def contains (r : HandlerRange) (offset : Nat) : Bool := r.start ≤ offset && offset < r.stop

/-- Whether `o` lies inside `r`. -/
def encloses (r o : HandlerRange) : Bool := r.start ≤ o.start && o.stop ≤ r.stop

/-- Whether `o` lies inside `r` and covers different offsets. -/
def strictlyEncloses (r o : HandlerRange) : Bool :=
  r.encloses o && !(r.start == o.start && r.stop == o.stop)

/-- The number of offsets the range covers; zero for a range that ends before it starts. -/
def span (r : HandlerRange) : Nat := r.stop - min r.start r.stop

end HandlerRange

/-- A handler table, innermost range first. -/
abbrev HandlerTable := Array HandlerRange

namespace HandlerTable

/-- The first range that protects an offset. -/
def find (t : HandlerTable) (offset : Nat) : Option HandlerRange := t.find? (·.contains offset)

/-- The ranges of a word list, three words a range. -/
def ofWords : List Nat → List HandlerRange
  | s :: e :: w :: rest => ⟨s, e, e, w % 65536⟩ :: ofWords rest
  | _ => []

/-- Decodes the three-word encoding. -/
def ofTriples (words : Array Nat) : Except CodeError HandlerTable :=
  if words.size % 3 ≠ 0 then .error (.truncatedTable words.size)
  else .ok (ofWords words.toList).toArray

end HandlerTable

end StackVm
