import StackVm.Interp.Step

/-! Running frames, calling values and driving generators.

A frame runs instruction by instruction until it returns or yields; an instruction that fails
hands its failure to the frame's handlers, and a failure no handler takes leaves the frame.
Every activation counts against the depth limit while it runs.

Calling a function binds the arguments; a function of a suspendable unit does not run but
makes a generator holding the bound arguments.  A generator runs its body on demand: the first
resumption makes the frame, a yield parks it in the generator, a return or an escaping
exception finishes the generator.  A completion signal escaping the body becomes a
`RuntimeError` caused by it, so a caller cannot take it for the generator's own end.  Resuming
a running generator is a `ValueError`; resuming a finished one raises its kind's exhaustion
signal.

Builtins and bound methods check their argument count first, with the messages of their
family. -/

namespace StackVm

/-- The most instructions one run of a frame executes. -/
def stepBudget : Nat := Nat.pow 2 62

namespace Act

/-- Runs instructions until the frame exits or fails past its handlers. -/
def execLoop (k : Kit) : Nat → Active → EStateM.Result Fault Active FrameExit
  | 0, s => .error .exhausted s
  | fuel + 1, s =>
    match step k s with
    | .ok .next s => execLoop k fuel s
    | .ok (.exit e) s => .ok e s
    | .error err s =>
      match unwind err s with
      | .ok () s => execLoop k fuel s
      | .error e s => .error e s

end Act

namespace Vm

/-- Runs a frame from a resumption until it returns or yields, giving back the frame as it
stopped.  The exception the caller is handling becomes the frame's inherited context. -/
def runFrame (k : Kit) (frame : Frame) (resume : Resume) : Vm (FrameExit × Frame) := fun m =>
  let s : Active := ⟨m, { frame with inherited := m.context }⟩
  let started : EStateM.Result Fault Active Unit := match resume with
    | .start => .ok () s
    | .send v => Act.push v s
    | .throw exc => Act.unwind (.raise exc) s
  match started with
  | .error e s => .error e s.machine
  | .ok () s =>
    match Act.execLoop k stepBudget s with
    | .ok e s => .ok (e, s.frame) s.machine
    | .error e s => .error e s.machine

/-- Runs a function that is not suspendable on arguments already bound. -/
def runFunction (k : Kit) (fn : Addr) (args : Array Value) : Vm Value := do
  enterActivation
  let r ← tryCatch (do runFrame k (← newFrame fn args) .start) fun e => do
    leaveActivation
    throw e
  leaveActivation
  match r.1 with
  | .ret v => pure v
  | .yield _ => internal "yield in a code unit not flagged as a generator"

/-- Calls a function: binds the arguments, then runs it or makes its generator. -/
def callFunction (k : Kit) (fnAddr : Addr) (args : Array Value) : Vm Value := do
  let fn ← function fnAddr
  let bound ← bind fn args
  let u := (← codeObj fn.code).unit
  match u.generatorKind with
  | some kind =>
    return .ref (← alloc (.generator { function := fnAddr, name := u.name, baseArgs := bound, kind }))
  | none => runFunction k fnAddr bound

/-- The generator at an address. -/
def generator (g : Addr) : Vm Generator := do
  match ← obj g with
  | .generator st => pure st
  | _ => internal "not a generator"

/-- Changes the generator at an address. -/
def modifyGenerator (g : Addr) (f : Generator → Generator) : Vm Unit :=
  modifyObj g (Obj.mapGenerator f)

/-- Raises a new exception with an error kind of its own. -/
def raiseKind {α : Type} (t : ExcType) (msg : String) (kind : ErrorKind) : Vm α := do
  let a ← newExc { type := t, message := some msg, kind := some kind }
  throw (.raise a)

/-- The error of resuming a running generator. -/
def alreadyExecuting {α : Type} (kind : GeneratorKind) : Vm α :=
  raiseKind .valueError s!"{kind.displayName} already executing" .reentrancyViolation

/-- The error of resuming a finished generator. -/
def exhaustedSignal {α : Type} : GeneratorKind → Vm α
  | .generator => raise ⟨.stopIteration, none⟩
  | .coroutine => raiseMsg .runtimeError "cannot reuse already awaited coroutine"
  | .asyncGenerator => raise ⟨.stopAsyncIteration, none⟩

/-- The error a finished body's return value becomes for a caller of `send` or `throw`. -/
def completionSignal {α : Type} (kind : GeneratorKind) (v : Value) : Vm α := do
  match kind with
  | .asyncGenerator => raise ⟨.stopAsyncIteration, none⟩
  | _ => throw (.raise (← excWithPayload .stopIteration v))

/-- Raises an exception thrown into a generator that is not suspended at a yield, at the
unit's first line, and finishes the generator. -/
def throwUnstarted {α : Type} (g fnAddr exc : Addr) : Vm α := do
  let u := (← codeObj (← function fnAddr).code).unit
  modifyExc exc (·.pushTrace ⟨u.name, 0, u.firstLine⟩)
  modifyGenerator g (·.finish)
  throw (.raise exc)

/-- A completion signal escaping a body becomes a `RuntimeError` caused by it. -/
def wrapEscaping (kind : GeneratorKind) (err : Fault) : Vm Fault := do
  let .raise a := err | pure err
  let t := (← exc a).type
  let message :=
    if t == .stopIteration then some s!"{kind.displayName} raised StopIteration"
    else if kind == .asyncGenerator && t == .stopAsyncIteration then
      some "async generator raised StopAsyncIteration"
    else none
  let some m := message | pure err
  let w ← newExc { type := .runtimeError, message := some m, context := some a }
  setCause w (some a)
  pure (.raise w)

/-- Resumes a generator: its first run starts the body, later ones continue at the yield. -/
def resumeGenerator (k : Kit) (g : Addr) (resume : Resume) : Vm GenStep := do
  let (kind, fnAddr, baseArgs, started, running, finished, parked) ← do
    let st ← generator g
    pure (st.kind, st.function, st.baseArgs, st.started, st.running, st.finished, st.frame)
  if running then alreadyExecuting kind
  if finished then
    match resume with
    | .throw exc => if kind != .coroutine then throwUnstarted g fnAddr exc else exhaustedSignal kind
    | _ => exhaustedSignal kind
  if !started then
    match resume with
    | .send v =>
      if !v.isNone then
        raiseMsg .typeError s!"can't send non-None value to a just-started {kind.displayName}"
    | .throw exc => throwUnstarted g fnAddr exc
    | .start => pure ()
  modifyGenerator g fun st => { st with frame := none }
  tryCatch enterActivation fun e => do
    modifyGenerator g fun st => { st with frame := parked }
    throw e
  let (frame, resume) ← match parked with
    | some f => pure (f, resume)
    | none => do
      let f ← tryCatch (newFrame fnAddr baseArgs) fun e => do
        leaveActivation
        modifyGenerator g (·.finish)
        throw e
      pure (f, Resume.start)
  modifyGenerator g fun st => { st with running := true, started := true }
  let result ← tryCatch (Except.ok <$> runFrame k frame resume) fun e => pure (.error e)
  leaveActivation
  modifyGenerator g fun st => { st with running := false }
  match result with
  | .ok (.yield v, f) =>
    modifyGenerator g fun st => { st with frame := some f }
    pure (.yielded v)
  | .ok (.ret v, _) =>
    modifyGenerator g (·.finish)
    pure (.returned v)
  | .error e =>
    modifyGenerator g (·.finish)
    throw (← wrapEscaping kind e)

/-- Advances an iterator or a generator; `none` once it is exhausted. -/
def nextValue (k : Kit) (v : Value) : Vm (Option Value) := do
  let h := (← get).heap
  match v, h.deref v with
  | .ref a, some (.iterator it) => Ops.iterNext a it
  | .ref a, some (.generator st) =>
    if st.finished then pure none
    else
      match ← resumeGenerator k a (.send .none) with
      | .yielded x => pure (some x)
      | .returned _ => pure none
  | _, _ => raiseMsg .typeError s!"'{h.typeName v}' object is not an iterator"

/-- The items of an iterable, in order. -/
def iterate (k : Kit) (v : Value) : Vm (Array Value) := iterateWith (nextValue k) v

/-- `generator.send(value)`: the next value yielded; a return raises the completion signal. -/
def generatorSend (k : Kit) (g : Addr) (v : Value) : Vm Value := do
  let kind := (← generator g).kind
  match ← resumeGenerator k g (.send v) with
  | .yielded x => pure x
  | .returned x => completionSignal kind x

/-- `generator.throw(exc)`: raises the exception, without a context, at the yield. -/
def generatorThrow (k : Kit) (g : Addr) (v : Value) : Vm Value := do
  let exc ← excOfValue v
  modifyExc exc fun e => { e with context := none }
  let kind := (← generator g).kind
  match ← resumeGenerator k g (.throw exc) with
  | .yielded x => pure x
  | .returned x => completionSignal kind x

/-- `generator.close()`: throws `GeneratorExit` in and expects the body to finish. -/
def closeGenerator (k : Kit) (g : Addr) : Vm Unit := do
  let st ← generator g
  let kind := st.kind
  if st.running then alreadyExecuting kind
  if !st.started || st.finished then
    modifyGenerator g (·.finish)
    return
  let signal ← newExc { type := .generatorExit, message := none }
  let r ← tryCatch (Except.ok <$> resumeGenerator k g (.throw signal)) fun e => pure (.error e)
  match r with
  | .ok (.yielded _) =>
    modifyGenerator g (·.finish)
    raiseKind .runtimeError s!"{kind.displayName} ignored GeneratorExit" .protocolViolation
  | .ok (.returned _) => pure ()
  | .error (.raise a) =>
    if (← exc a).type == .generatorExit then pure () else throw (.raise a)
  | .error e => throw e

/-- The error of a call with an argument count outside `lo` to `hi`. -/
def arityError (name : String) (given lo hi : Nat) : Raise :=
  let expected :=
    if lo == hi then s!"exactly {lo}" else if given < lo then s!"at least {lo}" else s!"at most {hi}"
  let plural := if lo == hi && lo == 1 then "" else "s"
  Raise.msg .typeError s!"{name}() takes {expected} argument{plural} ({given} given)"

/-- Checks that a call has from `lo` to `hi` arguments. -/
def arity (name : String) (args : Array Value) (lo hi : Nat) : Vm Unit :=
  if args.size < lo || args.size > hi then raise (arityError name args.size lo hi) else pure ()

/-- The error of a method call without exactly `n` arguments. -/
def exactArity (name : String) (args : Array Value) (n : Nat) : Vm Unit :=
  if args.size != n then
    let given := args.size
    raiseMsg .typeError s!"{name}() takes exactly {n} argument{plural n} ({given} given)"
  else pure ()

/-- A bound of `range`: an integer that fits a machine word. -/
def rangeBound (v : Value) : Vm Int := do
  let h := (← get).heap
  match v, h.deref v with
  | .bool b, _ => pure (if b then 1 else 0)
  | .int i, _ => pure i
  | _, some (.bigInt _) => raiseMsg .overflowError "Python int too large to convert to C ssize_t"
  | _, _ => raiseMsg .typeError s!"'{h.typeName v}' object cannot be interpreted as an integer"

/-- The list at an address. -/
def listItems (a : Addr) : Vm (Array Value) := do
  match ← obj a with
  | .list xs => pure xs
  | _ => internal "not a list"

/-- The dict at an address. -/
def dictEntries (a : Addr) : Vm (Array (Value × Value)) := do
  match ← obj a with
  | .dict es => pure es
  | _ => internal "not a dict"

/-- Calls a builtin function. -/
def callBuiltin (k : Kit) (b : Builtin) (args : Array Value) : Vm Value := do
  let first := args[0]?.getD .none
  match b with
  | .len =>
    arity "len" args 1 1
    let n ← ofExcept (Ops.len (← get).heap first)
    pure (.int n)
  | .range =>
    arity "range" args 1 3
    let bounds ← args.mapM rangeBound
    let (start, stop) := match bounds.toList with
      | [stop] => (0, stop)
      | start :: stop :: _ => (start, stop)
      | [] => (0, 0)
    let step := (bounds[2]?).getD 1
    if step == 0 then raiseMsg .valueError "range() arg 3 must not be zero"
    return .ref (← alloc (.iterator (Ops.rangeIter start stop step)))
  | .list =>
    arity "list" args 0 1
    if args.isEmpty then list #[] else list (← iterate k first)
  | .tuple =>
    arity "tuple" args 0 1
    if args.isEmpty then tuple #[]
    else match (← get).heap.deref first with
      | some (.tuple _) => pure first
      | _ => tuple (← iterate k first)
  | .iter =>
    arity "iter" args 1 1
    Ops.getIter first
  | .next =>
    arity "next" args 1 2
    let h := (← get).heap
    match h.deref first with
    | some (.iterator _) | some (.generator _) => pure ()
    | _ => raiseMsg .typeError s!"'{h.typeName first}' object is not an iterator"
    match ← nextValue k first with
    | some v => pure v
    | none =>
      match args[1]? with
      | some d => pure d
      | none => raise ⟨.stopIteration, none⟩
  | .isinstance =>
    arity "isinstance" args 2 2
    let h := (← get).heap
    let classinfo := args[1]?.getD .none
    match h.deref first with
    | some (.exception e) => return .bool (← ofExcept (h.matchesClassinfo e.type Heap.eqDepth classinfo))
    | _ =>
      ofExcept (h.checkClassinfo Heap.eqDepth classinfo)
      pure (.bool false)
  | .abs =>
    arity "abs" args 1 1
    let h := (← get).heap
    match first, h.deref first with
    | .bool b, _ => pure (.int (if b then 1 else 0))
    | .int i, _ => int i.natAbs
    | _, some (.bigInt i) => int i.natAbs
    | .float f, _ => pure (.float f.abs)
    | _, _ => raiseMsg .typeError s!"bad operand type for abs(): '{h.typeName first}'"
  | .repr =>
    arity "repr" args 1 1
    str ((← get).heap.repr first)
  | .sum =>
    arity "sum" args 1 2
    let start := args[1]?.getD (.int 0)
    if ((← get).heap.asStr? start).isSome then
      raiseMsg .typeError "sum() can't sum strings [use ''.join(seq) instead]"
    let items ← iterate k first
    items.foldlM (fun total x => Ops.binary .add total x) start

/-- Calls a builtin or a bound method. -/
def callNative (k : Kit) (n : Native) (args : Array Value) : Vm Value := do
  let first := args[0]?.getD .none
  match n with
  | .builtin b => callBuiltin k b args
  | .listAppend l =>
    exactArity "append" args 1
    modifyObj l (Obj.mapList (·.push first))
    pure .none
  | .listExtend l =>
    exactArity "extend" args 1
    let items ← iterate k first
    modifyObj l (Obj.mapList (· ++ items))
    pure .none
  | .listPop l =>
    let xs ← listItems l
    if xs.isEmpty then raiseMsg .indexError "pop from empty list"
    let i ← match args.toList with
      | [] => pure (xs.size - 1)
      | [index] =>
        ofExcept (Ops.normalizeIndex (← get).heap index xs.size "list" "pop index out of range")
      | _ =>
        let given := args.size
        raiseMsg .typeError s!"pop expected at most 1 argument, got {given}"
    modifyObj l (Obj.mapList (·.eraseIdx! i))
    pure (xs[i]?.getD .none)
  | .dictGet d =>
    if args.isEmpty || args.size > 2 then
      let given := args.size
      raiseMsg .typeError s!"get expected 1 or 2 arguments, got {given}"
    let dflt := if args.size == 2 then args[1]?.getD .none else .none
    let h := (← get).heap
    ofExcept (h.checkHashable first)
    pure ((h.lookup (← dictEntries d) first).getD dflt)
  | .dictKeys d =>
    exactArity "keys" args 0
    list ((← dictEntries d).map (·.1))
  | .dictValues d =>
    exactArity "values" args 0
    list ((← dictEntries d).map (·.2))
  | .dictItems d =>
    exactArity "items" args 0
    let pairs ← (← dictEntries d).mapM fun (key, v) => tuple #[key, v]
    list pairs
  | .genSend g =>
    exactArity "send" args 1
    generatorSend k g first
  | .genThrow g =>
    exactArity "throw" args 1
    generatorThrow k g first
  | .genClose g =>
    exactArity "close" args 0
    closeGenerator k g
    pure .none

/-- Calls any value: a function, a builtin or method, or an exception class. -/
def callValue (k : Kit) (callable : Value) (args : Array Value) : Vm Value := do
  let h := (← get).heap
  match callable, h.deref callable with
  | .ref a, some (.function _) => callFunction k a args
  | _, some (.native n) => callNative k n args
  | .excType t, _ => return .ref (← instantiate t args)
  | _, _ => raise (Raise.notCallable (h.typeName callable))

end Vm

/-- The engine's operations with `n` nesting levels left below them. -/
def kit : Nat → Kit
  | 0 => Kit.exhausted
  | n + 1 =>
    { call := fun c args => Vm.callValue (kit n) c args
      run := fun f args => Vm.runFunction (kit n) f args
      next := fun v => Vm.nextValue (kit n) v }

/-- The nesting levels the engine allows below a request. -/
def nestingBudget : Nat := Nat.pow 2 20

namespace Vm

/-- Calls a value from outside any frame. -/
def call (callable : Value) (args : Array Value) : Vm Value :=
  callValue (kit nestingBudget) callable args

/-- Advances an iterator or generator from outside any frame. -/
def advance (v : Value) : Vm (Option Value) := nextValue (kit nestingBudget) v

/-- Drains an iterable from outside any frame. -/
def drainAll (v : Value) : Vm (Array Value) := iterate (kit nestingBudget) v

/-- Resumes a generator with a value from outside any frame. -/
def resume (g : Addr) (v : Value) : Vm GenStep := resumeGenerator (kit nestingBudget) g (.send v)

/-- `send` from outside any frame. -/
def send (g : Addr) (v : Value) : Vm Value := generatorSend (kit nestingBudget) g v

/-- `throw` from outside any frame. -/
def throwInto (g : Addr) (v : Value) : Vm Value := generatorThrow (kit nestingBudget) g v

/-- `close` from outside any frame. -/
def close (g : Addr) : Vm Unit := closeGenerator (kit nestingBudget) g

/-- Runs a code unit as a function of a namespace, on arguments and closure cells. -/
def invoke (code globals : Addr) (args : Array Value) (closure : Array Addr) : Vm Value := do
  let f ← newFunction code globals #[] closure
  callFunction (kit nestingBudget) f args

end Vm

end StackVm
