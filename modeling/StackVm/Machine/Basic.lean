import StackVm.Store.Heap
import StackVm.Machine.Profile
import StackVm.Numeric.Arith

/-! The machine: the store, the configuration, the builtin namespace and the registered
modules, the profiles of the code units, the number of activations in progress, the exception
the innermost caller is handling, and the counters of what the adaptive paths did.

Computations on the machine either finish or fail with a fault: a raised exception, which
handlers may catch, or an internal error, which no handler sees. -/

namespace StackVm

/-- Tunables of the machine.  None of them changes what a program computes. -/
structure Config where
  /-- Iterations after which a loop is compiled; `none` never compiles. -/
  osrThreshold : Option Nat := some 5000
  /-- Activations allowed at once before a `RecursionError`. -/
  maxDepth : Nat := 256
  /-- Whether sites remember what they saw. -/
  specialize : Bool := true
  deriving Inhabited, Repr

/-- Counters of the adaptive paths. -/
structure Stats where
  osrEntries : Nat := 0
  osrDeopts : Nat := 0
  cacheHits : Nat := 0
  cacheMisses : Nat := 0
  resolvedSites : Nat := 0
  deriving Inhabited, Repr

/-- A failure that no handler may catch. -/
inductive InternalError where
  | stackOverflow (code : String) (offset : Nat)
  | stackUnderflow (code : String) (offset : Nat)
  | closureMismatch (code : String) (expected got : Nat)
  | malformed (msg : String)
  deriving Inhabited, Repr

namespace InternalError

/-- The error's message. -/
def message : InternalError → String
  | stackOverflow code offset => s!"operand stack overflow in '{code}' at offset {offset}"
  | stackUnderflow code offset => s!"operand stack underflow in '{code}' at offset {offset}"
  | closureMismatch code expected got => s!"'{code}' expects {expected} closure cells, got {got}"
  | malformed msg => "malformed code: " ++ msg

/-- The error's variant name. -/
def variant : InternalError → String
  | stackOverflow .. => "StackOverflow"
  | stackUnderflow .. => "StackUnderflow"
  | closureMismatch .. => "ClosureMismatch"
  | malformed .. => "Malformed"

end InternalError

/-- Why a computation of the machine stopped. -/
inductive Fault where
  /-- A raised exception object. -/
  | raise (exc : Addr)
  | internal (e : InternalError)
  /-- The computation ran past its step or nesting budget. -/
  | exhausted
  deriving Inhabited

/-- The machine. -/
structure Machine where
  heap : Heap := {}
  config : Config := {}
  fastPaths : Bool := true
  builtins : Array (String × Value) := #[]
  modules : Array (String × Addr) := #[]
  profiles : Array Profile := #[]
  depth : Nat := 0
  context : Option Addr := none
  stats : Stats := {}
  deriving Inhabited

/-- Computations on the machine. -/
abbrev Vm := EStateM Fault Machine

namespace Vm

/-- Places an object in the store. -/
def alloc (o : Obj) : Vm Addr := modifyGet fun m =>
  let (heap, a) := m.heap.alloc o
  (a, { m with heap })

/-- The object at an address. -/
def obj (a : Addr) : Vm Obj := do
  match (← get).heap.get? a with
  | some o => pure o
  | none => throw (.internal (.malformed "dangling reference"))

/-- Changes the object at an address. -/
def modifyObj (a : Addr) (f : Obj → Obj) : Vm Unit :=
  modify fun m => { m with heap := m.heap.modify a f }

/-- Changes the counters. -/
def count (f : Stats → Stats) : Vm Unit := modify fun m => { m with stats := f m.stats }

/-- A new exception object. -/
def newExc (e : Exc) : Vm Addr := alloc (.exception e)

/-- Raises an exception described by an operation. -/
def raise {α : Type} (r : Raise) : Vm α := do
  let a ← newExc { type := r.type, message := r.message }
  throw (.raise a)

/-- Raises an exception of a class with a message. -/
def raiseMsg {α : Type} (t : ExcType) (msg : String) : Vm α := raise (Raise.msg t msg)

/-- Runs an operation that may raise. -/
def ofExcept {α : Type} : Except Raise α → Vm α
  | .ok a => pure a
  | .error r => raise r

/-- Fails with an internal error. -/
def internal {α : Type} (msg : String) : Vm α := throw (.internal (.malformed msg))

/-- An integer value: immediate when it fits in a machine word, stored otherwise. -/
def int (i : Int) : Vm Value :=
  if Integer.fits i then pure (.int i) else return .ref (← alloc (.bigInt i))

/-- A number value. -/
def num : Num → Vm Value
  | .int i => int i
  | .float f => pure (.float f)

/-- A new string. -/
def str (s : String) : Vm Value := return .ref (← alloc (.str s))

/-- A new tuple. -/
def tuple (items : Array Value) : Vm Value := return .ref (← alloc (.tuple items))

/-- A new list. -/
def list (items : Array Value) : Vm Value := return .ref (← alloc (.list items))

/-- The exception object at an address. -/
def exc (a : Addr) : Vm Exc := do
  match ← obj a with
  | .exception e => pure e
  | _ => internal "not an exception"

/-- Changes the exception object at an address. -/
def modifyExc (a : Addr) (f : Exc → Exc) : Vm Unit :=
  modifyObj a fun
    | .exception e => .exception (f e)
    | o => o

end Vm

end StackVm
