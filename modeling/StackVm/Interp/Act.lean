import StackVm.Machine.Basic

/-! Activations: computations that run one frame on the machine.  The operand stack of a frame
never grows past the bound its code unit declares; pushing past it, or popping an empty stack,
is an internal error attributed to the current instruction.  A failed instruction leaves the
frame as it was when it failed, so the handler search sees the same frame. -/

namespace StackVm

/-- A running frame and the machine it runs on. -/
structure Active where
  machine : Machine
  frame : Frame
  deriving Inhabited

/-- Computations of one activation. -/
abbrev Act := EStateM Fault Active

namespace Act

/-- Runs a machine computation inside the activation. -/
@[inline] def vm {α : Type} (x : Vm α) : Act α := fun ⟨m, f⟩ =>
  match x m with
  | .ok a m => .ok a ⟨m, f⟩
  | .error e m => .error e ⟨m, f⟩

/-- Reads from the frame. -/
@[inline] def reads {α : Type} (g : Frame → α) : Act α := fun s => .ok (g s.frame) s

/-- Reads from the machine. -/
@[inline] def readsMachine {α : Type} (g : Machine → α) : Act α := fun s => .ok (g s.machine) s

/-- Changes the frame. -/
@[inline] def modifyFrame (g : Frame → Frame) : Act Unit := fun ⟨m, f⟩ => .ok () ⟨m, g f⟩

/-- Changes the machine. -/
@[inline] def modifyMachine (g : Machine → Machine) : Act Unit := fun ⟨m, f⟩ => .ok () ⟨g m, f⟩

/-- The store. -/
@[inline] def heap : Act Heap := readsMachine (·.heap)

/-- The unit the frame runs. -/
@[inline] def unit : Act CodeUnit := reads (·.code.unit)

/-- An internal error about the operand stack. -/
def stackFault (overflow : Bool) : Act Fault := reads fun f =>
  if overflow then .internal (.stackOverflow f.unit.name f.instrPc)
  else .internal (.stackUnderflow f.unit.name f.instrPc)

/-- Pushes a value. -/
@[inline] def push (v : Value) : Act Unit := do
  if (← reads fun f => decide (f.stack.size ≥ f.unit.stackSize)) then throw (← stackFault true)
  modifyFrame fun f => { f with stack := f.stack.push v }

/-- The top value. -/
@[inline] def peek : Act Value := do
  match ← reads (·.stack.back?) with
  | some v => pure v
  | none => throw (← stackFault false)

/-- The value `depth` places below the top. -/
@[inline] def peekAt (depth : Nat) : Act Value := do
  match ← reads fun f => if depth < f.stack.size then f.stack[f.stack.size - 1 - depth]? else none with
  | some v => pure v
  | none => throw (← stackFault false)

/-- Pops the top value. -/
@[inline] def pop : Act Value := do
  let v ← peek
  modifyFrame fun f => { f with stack := f.stack.pop }
  pure v

/-- Pops `n` values, returned in the order they were pushed. -/
def popN (n : Nat) : Act (Array Value) := do
  let size ← reads (·.stack.size)
  if size < n then throw (← stackFault false)
  let items ← reads fun f => f.stack.extract (size - n) size
  modifyFrame fun f => { f with stack := f.stack.shrink (size - n) }
  pure items

/-- Rotates the top `n` values so that the top one goes to the bottom of the group. -/
def rotate (n : Nat) : Act Unit := do
  let size ← reads (·.stack.size)
  if size < n then throw (← stackFault false)
  let top ← pop
  let rest ← popN (n - 1)
  modifyFrame fun f => { f with stack := (f.stack.push top) ++ rest }

/-- Fails with an internal error. -/
@[inline] def internal {α : Type} (msg : String) : Act α := throw (.internal (.malformed msg))

/-- Raises an exception described by an operation. -/
@[inline] def raise {α : Type} (r : Raise) : Act α := vm (Vm.raise r)

/-- Runs an operation that may raise. -/
@[inline] def ofExcept {α : Type} (x : Except Raise α) : Act α := vm (Vm.ofExcept x)

/-- Runs a machine computation with the frame's handled exception as the context of anything
raised inside it; the previous context comes back afterwards, also on failure. -/
def withContext {α : Type} (x : Vm α) : Act α := fun ⟨m, f⟩ =>
  let saved := m.context
  match x { m with context := f.currentHandled } with
  | .ok a m => .ok a ⟨{ m with context := saved }, f⟩
  | .error e m => .error e ⟨{ m with context := saved }, f⟩

end Act

end StackVm
