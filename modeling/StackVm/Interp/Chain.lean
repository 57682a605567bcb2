import StackVm.Interp.Act
import StackVm.Value.Repr

/-! Exception chaining and handler dispatch.

An exception raised while another is being handled records the handled one as its context,
unless that would close a cycle of context and cause links.  `raise … from cause` records an
explicit cause (dropped if it would close a cycle) and suppresses the context.

When an instruction fails with an exception, the exception gets a context if it has none yet,
the frame's current instruction is appended to its traceback, and the first handler range
covering the instruction takes over: the handlers entered inside that range are left, the
operand stack is cut back to the range's depth, the exception is pushed and execution goes on
at the handler.  Without a covering range the exception leaves the frame. -/

namespace StackVm

namespace Vm

/-- The exceptions an exception links to: its context, then its cause. -/
def links (h : Heap) (a : Addr) : List Addr :=
  match h.get? a with
  | some (.exception e) => e.context.toList ++ e.cause.toList
  | _ => []

/-- Whether `target` is reachable from the links of `start`, searching depth first. -/
def reachesFrom (h : Heap) (target : Addr) : Nat → List Addr → List Addr → Bool
  | 0, _, _ => false
  | _, [], _ => false
  | fuel + 1, a :: pending, seen =>
    if a == target then true
    else if seen.contains a then reachesFrom h target fuel pending seen
    else reachesFrom h target fuel (links h a ++ pending) (a :: seen)

/-- Whether `target` is reachable from `start` through context and cause links. -/
def chainReaches (h : Heap) (start target : Addr) : Bool :=
  reachesFrom h target (2 * h.objs.size + 4) (links h start) []

/-- Records the handled exception as the context of `this`, unless that closes a cycle. -/
def chainContext (this : Addr) (handled : Option Addr) : Vm Unit := do
  match handled with
  | none => pure ()
  | some hd =>
    let h := (← get).heap
    if hd == this || chainReaches h hd this then pure ()
    else modifyExc this fun e => { e with context := some hd }

/-- Records an explicit cause, dropping one that would close a cycle, and suppresses the
context. -/
def setCause (this : Addr) (cause : Option Addr) : Vm Unit := do
  let h := (← get).heap
  let cause := cause.filter fun c => !(c == this || chainReaches h c this)
  modifyExc this fun e => { e with suppressContext := true, cause }

/-- The exception a raised value denotes: an exception, or a new one of an exception class. -/
def excOfValue (v : Value) : Vm Addr := do
  let h := (← get).heap
  match v, h.deref v with
  | .ref a, some (.exception _) => pure a
  | .excType t, _ => newExc { type := t, message := none }
  | _, _ => raiseMsg .typeError "exceptions must derive from BaseException"

/-- An exception carrying a value, whose text becomes the message unless it is `None`. -/
def excWithPayload (t : ExcType) (payload : Value) : Vm Addr := do
  let h := (← get).heap
  let message := if payload.isNone then none else some (h.repr payload)
  newExc { type := t, message, payload := some payload }

/-- Calls an exception class: no argument gives no message, a `StopIteration` carries its one
argument, one string is the message, one other value gives its text, and several arguments
give the text of their tuple. -/
def instantiate (t : ExcType) (args : Array Value) : Vm Addr := do
  let h := (← get).heap
  match args.toList with
  | [] => newExc { type := t, message := none }
  | [x] =>
    if t == .stopIteration then excWithPayload t x
    else match h.asStr? x with
      | some s => newExc { type := t, message := some s }
      | none => newExc { type := t, message := some (h.repr x) }
  | xs => newExc { type := t, message := some ("(" ++ ", ".intercalate (xs.map h.repr) ++ ")") }

end Vm

/-- The handlers a frame is still in when the range `r` catches an exception: a catch by a
range that encloses a handler's own range leaves that handler and every one entered after it. -/
def HandlerRange.keptHandled (r : HandlerRange) (handled : Array Handled) : Array Handled :=
  match handled.findIdx? (fun hd => r.encloses hd.range) with
  | some i => handled.extract 0 i
  | none => handled

namespace Act

/-- Hands an exception raised by the current instruction to the first handler range of the frame
that covers the instruction: the handlers entered inside that range are left, the operand stack
is cut back to the range's depth, the exception is pushed and execution goes on at the handler.
Without a covering range the frame's handlers are dropped and the exception leaves the frame. -/
def dispatch (exc : Addr) : Act Unit := do
  match ← reads fun f => f.unit.handlers.find f.instrPc with
  | none =>
    modifyFrame fun f => { f with handled := #[] }
    throw (.raise exc)
  | some r =>
    modifyFrame fun f =>
      { f with handled := r.keptHandled f.handled, stack := f.stack.shrink r.depth }
    push (.ref exc)
    modifyFrame fun f => { f with handled := f.handled.push ⟨exc, r⟩, pc := r.handler }

/-- Routes a failure of the current instruction to a handler of the frame, or passes it on.
Internal errors are never handled. -/
def unwind (err : Fault) : Act Unit := do
  match err with
  | .raise exc =>
    let e ← vm (Vm.exc exc)
    if e.context.isNone then
      let handled ← reads (·.currentHandled)
      vm (Vm.chainContext exc handled)
    let entry ← reads (·.traceEntry)
    vm (Vm.modifyExc exc (·.pushTrace entry))
    dispatch exc
  | other => throw other

end Act

end StackVm
