import StackVm.Interp.Loop
import StackVm.Interp.Function
import StackVm.Ops.Arith

/-! One instruction of a frame.  An instruction first records its own offset, so that anything
it raises is attributed to it, then reads its operands and acts on the operand stack, the
local slots, the cells, the namespace or the store.

Names are looked up in the frame's namespace and then among the builtins.  Calls, iteration
and the resumption of generators go through the engine's kit, one nesting level down; the
exception the frame is handling becomes the context of anything raised inside them.  The sites
of the instruction record what they saw (see `Act.noteOperator`); an operator site that hits
computes its result inline, a namespace site reads the value it remembers, and an attribute
site reads the remembered slot of host objects of a remembered layout. -/

namespace StackVm

namespace Vm

/-- The items left in an iterator advanced by `next`, at most `fuel` of them. -/
def drain (next : Value → Vm (Option Value)) (it : Value) : Nat → Array Value → Vm (Array Value)
  | 0, _ => throw .exhausted
  | fuel + 1, acc => do
    match ← next it with
    | some v => drain next it fuel (acc.push v)
    | none => pure acc

/-- The most items taken from one iterable. -/
def drainBudget : Nat := Nat.pow 2 62

/-- The items of an iterable, in order, advancing its iterator by `next`. -/
def iterateWith (next : Value → Vm (Option Value)) (v : Value) : Vm (Array Value) := do
  let it ← Ops.getIter v
  drain next it drainBudget #[]

end Vm

/-- The items of an iterable, in order. -/
def Kit.iterate (k : Kit) (v : Value) : Vm (Array Value) := Vm.iterateWith k.next v

namespace Heap

/-- Whether an exception class matches a class or a tuple of them, as an `except` clause and
`isinstance` test it; anything else in the way is a `TypeError`. -/
def matchesClassinfo (h : Heap) (t : ExcType) : Nat → Value → Except Raise Bool
  | 0, _ => .ok false
  | _ + 1, .excType c => .ok (t.isSubclassOf c)
  | fuel + 1, v =>
    match h.deref v with
    | some (.tuple xs) => xs.toList.anyM (h.matchesClassinfo t fuel)
    | _ => .error (Raise.msg .typeError
        "catching classes that do not inherit from BaseException is not allowed")

/-- Checks that a value is a class or a tuple of them, for `isinstance`. -/
def checkClassinfo (h : Heap) : Nat → Value → Except Raise Unit
  | 0, _ => .ok ()
  | _ + 1, .excType _ => .ok ()
  | fuel + 1, v =>
    match h.deref v with
    | some (.tuple xs) => xs.toList.forM (h.checkClassinfo fuel)
    | _ => .error (Raise.msg .typeError
        "isinstance() arg 2 must be a type, a tuple of types, or a union")

/-- Consecutive pairs of a list; an odd last item is dropped. -/
def pairsOf : List Value → List (Value × Value)
  | k :: v :: rest => (k, v) :: pairsOf rest
  | _ => []

end Heap

namespace Vm

/-- The module registered under a name. -/
def importModule (name : String) : Vm Value := do
  match (← get).modules.find? (·.1 == name) with
  | some (_, a) => pure (.ref a)
  | none => raiseMsg .moduleNotFoundError s!"No module named '{name}'"

/-- `from module import name`: a missing attribute is an `ImportError`. -/
def importFrom (module : Value) (name : String) : Vm Value :=
  tryCatch (Ops.getAttr module name) fun err => do
    match err with
    | .raise a =>
      let e ← exc a
      if e.type == .attributeError then
        let h := (← get).heap
        let source := match h.deref module with
          | some (.module m) => m.name
          | _ => h.typeName module
        raiseMsg .importError s!"cannot import name '{name}' from '{source}'"
      else throw err
    | _ => throw err

end Vm

namespace Act

/-- The byte at the next offset, which is then passed. -/
@[inline] def nextByte : Act Nat := do
  let b ← reads fun f => f.unit.byteAt f.pc
  modifyFrame fun f => { f with pc := f.pc + 1 }
  pure b

/-- The unsigned 16-bit operand at the next offset, which is then passed. -/
@[inline] def nextWord : Act Nat := do
  let w ← reads fun f => f.unit.u16At f.pc
  modifyFrame fun f => { f with pc := f.pc + 2 }
  pure w

/-- The signed 16-bit operand at the next offset, which is then passed. -/
@[inline] def nextSignedWord : Act Int := do
  let w ← reads fun f => f.unit.i16At f.pc
  modifyFrame fun f => { f with pc := f.pc + 2 }
  pure w

/-- Moves the next offset by a signed distance. -/
@[inline] def jumpBy (d : Int) : Act Unit := modifyFrame fun f => { f with pc := (f.pc + d).toNat }

/-- The name at an index of the unit's name pool. -/
@[inline] def nameAt (i : Nat) : Act String := reads fun f => (f.unit.names[i]?).getD ""

/-- The error of reading or deleting an empty local slot. -/
def unboundLocal {α : Type} (slot : Nat) : Act α := do
  let n ← reads fun f => (f.unit.localNames[slot]?).getD ""
  raise (Raise.unboundLocal n)

/-- Reads a local slot. -/
@[inline] def loadLocal (slot : Nat) : Act Value := do
  match ← reads (·.locals[slot]?) with
  | some (some v) => pure v
  | some none => unboundLocal slot
  | none => internal "local slot out of range"

/-- Empties a local slot that holds a value. -/
def deleteLocal (slot : Nat) : Act Unit := do
  match ← reads (·.locals[slot]?) with
  | some (some _) => modifyFrame fun f => { f with locals := f.locals.set! slot none }
  | some none => unboundLocal slot
  | none => internal "local slot out of range"

/-- The cell of a cell or free variable. -/
@[inline] def cellAt (i : Nat) : Act Addr := do
  match ← reads (·.derefs[i]?) with
  | some a => pure a
  | none => internal "cell index out of range"

/-- The error of reading or deleting an empty cell: a local of this unit, or a free variable. -/
def unboundCell {α : Type} (i : Nat) : Act α := do
  let u ← unit
  let n := u.derefName i
  if i < u.cellNames.size then raise (Raise.unboundLocal n) else raise (Raise.unboundFree n)

/-- The content of a cell. -/
def cellContent (a : Addr) : Act (Option Value) := vm do
  match ← Vm.obj a with
  | .cell v => pure v
  | _ => Vm.internal "not a cell"

/-- Replaces the content of a cell. -/
def setCell (a : Addr) (v : Option Value) : Act Unit :=
  vm (Vm.modifyObj a (Obj.mapCell fun _ => v))

/-- The frame's namespace. -/
def globals : Act Globals := do
  let a ← reads (·.globals)
  match (← heap).get? a with
  | some (.globals g) => pure g
  | _ => internal "not a namespace"

/-- Changes the frame's namespace. -/
def modifyGlobals (g : Globals → Globals) : Act Unit := do
  let a ← reads (·.globals)
  vm (Vm.modifyObj a (Obj.mapGlobals g))

/-- A name in the frame's namespace, else among the builtins. -/
def lookupGlobal (name : String) : Act (Option Value) := do
  match (← globals).get? name with
  | some v => pure (some v)
  | none => readsMachine fun m => assocGet? m.builtins name

/-- Whether sites remember what they see. -/
@[inline] def specializing : Act Bool := readsMachine (·.config.specialize)

/-- A global read.  The site remembers the value with the namespace's version; while the
version stays, the value is the one a fresh lookup finds. -/
def loadGlobal (index : Nat) : Act Value := do
  let name ← nameAt index
  let ga ← reads (·.globals)
  let version := (← globals).version
  let spec ← specializing
  if spec then
    if let some s ← site then
      match s.cache with
      | .global a v value =>
        if a == ga && v == version then
          hit
          return value
        else missAt s
      | _ => pure ()
  let some value ← lookupGlobal name | raise (Raise.nameUndefined name)
  if spec then
    if let some s ← site then
      if s.isUnresolved then settle s (.global ga version value)
  pure value

/-- An attribute read.  On a host object with a layout id, the site remembers the slot of the
name under that layout and later reads that slot of any object with the same layout. -/
def loadAttr (obj : Value) (index : Nat) : Act Value := do
  let name ← nameAt index
  let general : Act Value := vm (Ops.getAttr obj name)
  if !(← specializing) then return ← general
  let some (.object host) := (← heap).deref obj | general
  let some shape := host.shape | general
  let some s ← site | general
  match s.cache with
  | .attr seen slot =>
    if seen == shape then
      match host.readSlot slot with
      | some v => do hit; pure v
      | none => do missAt s; general
    else do missAt s; general
  | .unresolved =>
    match host.slotOf name with
    | some slot => do
      settle s (.attr shape slot)
      match host.readSlot slot with
      | some v => pure v
      | none => general
    | none => general
  | .generic => general
  | _ => do missAt s; general

/-- The function a call site may run without binding: the one it settled on, when called
again, or one that takes exactly `argc` arguments and is not suspendable, on the first call. -/
def callTarget (callable : Value) (argc : Nat) : Act (Option Addr) := do
  if !(← specializing) then return none
  let some s ← site | return none
  let h ← heap
  let target : Option (Addr × Function) := match callable with
    | .ref a => match h.get? a with
      | some (.function f) => some (a, f)
      | _ => none
    | _ => none
  if let .call c := s.cache then
    if let some (a, _) := target then
      if c == a then
        hit
        return some a
  if s.isUnresolved then
    match target with
    | some (a, f) =>
      let direct := match h.get? f.code with
        | some (.code c) =>
          !c.unit.flags.hasVarargs && c.unit.argCount == argc && c.unit.generatorKind.isNone
        | _ => false
      if direct then
        settle s (.call a)
        return some a
      settle s .generic
      return none
    | none =>
      settle s .generic
      return none
  if !s.isGeneric then missAt s
  return none

/-- The items of a tuple or list as they are now, or of any other iterable by iterating it. -/
def spread (k : Kit) (v : Value) : Act (Array Value) := do
  match (← heap).deref v with
  | some (.tuple xs) | some (.list xs) => pure xs
  | _ => withContext (k.iterate v)

/-- A call with `argc` arguments on the stack above the callable. -/
def callFromStack (k : Kit) (argc : Nat) : Act Unit := do
  let args ← popN argc
  let callable ← pop
  let direct ← callTarget callable argc
  let result ← withContext (match direct with
    | some a => k.run a args
    | none => k.call callable args)
  push result

/-- A call whose arguments are the items of an iterable on the stack. -/
def callVarargs (k : Kit) : Act Unit := do
  let items ← pop
  let callable ← pop
  let args ← spread k items
  let result ← withContext (k.call callable args)
  push result

/-- A method call with `argc` arguments on the stack above the receiver. -/
def callMethod (k : Kit) (name : String) (argc : Nat) : Act Unit := do
  let args ← popN argc
  let receiver ← pop
  let method ← vm (Ops.getAttr receiver name)
  let result ← withContext (k.call method args)
  push result

/-- The cells of a closure tuple. -/
def closureCells (v : Value) : Act (Array Addr) := do
  let h ← heap
  let some (.tuple xs) := h.deref v | internal "MakeFunction closure is not a tuple"
  xs.mapM fun x => match x, h.deref x with
    | .ref a, some (.cell _) => pure a
    | _, _ => internal "MakeFunction closure holds a non-cell"

/-- Makes a function of a code constant, with a closure tuple and a defaults tuple popped
when the flags say so. -/
def makeFunction (index flags : Nat) : Act Unit := do
  let u ← unit
  let code ← match u.constants[index]? with
    | some (.ref a) => do
      match (← heap).get? a with
      | some (.code _) => pure a
      | _ => internal "MakeFunction operand is not a code constant"
    | _ => internal "MakeFunction operand is not a code constant"
  let closure ← if flags &&& Opcode.withClosure == 0 then pure #[] else closureCells (← pop)
  let defaults ← if flags &&& Opcode.withDefaults == 0 then pure #[] else do
    let v ← pop
    match (← heap).deref v with
    | some (.tuple xs) => pure xs
    | _ => internal "MakeFunction defaults are not a tuple"
  let g ← reads (·.globals)
  let f ← vm (Vm.newFunction code g defaults closure)
  push (.ref f)

/-- A binary operator on the top two values. -/
def binaryOp (op : BinaryOp) : Act Unit := do
  let y ← pop
  let x ← pop
  let h ← heap
  let hit ← noteOperator (binaryKind h op x y) fun c => (inlineBinary h op c x y).isSome
  push (← vm (binaryAt h op hit x y))

/-- A rich comparison of the top two values. -/
def compareOp (op : CompareOp) : Act Unit := do
  let y ← pop
  let x ← pop
  let h ← heap
  let hit ← noteOperator (compareKind h x y) fun c => (inlineCompare h op c x y).isSome
  push (.bool (← ofExcept (compareAt h op hit x y)))

/-- A dict of `n` key-value pairs from the stack; a later equal key replaces the value. -/
def buildDict (n : Nat) : Act Unit := do
  let items ← popN (2 * n)
  let mut es : Array (Value × Value) := #[]
  for (key, v) in Heap.pairsOf items.toList do
    ofExcept ((← heap).checkHashable key)
    es := (← heap).insertKey es key v
  push (.ref (← vm (Vm.alloc (.dict es))))

/-- A set of `n` values from the stack. -/
def buildSet (n : Nat) : Act Unit := do
  let items ← popN n
  let mut xs : Array Value := #[]
  for v in items do
    ofExcept ((← heap).checkHashable v)
    xs := (← heap).insertMember xs v
  push (.ref (← vm (Vm.alloc (.set xs))))

/-- Replaces the top value by its `n` items, the first on top. -/
def unpackSequence (k : Kit) (n : Nat) : Act Unit := do
  let items ← spread k (← pop)
  let got := items.size
  if got < n then
    raise (Raise.msg .valueError s!"not enough values to unpack (expected {n}, got {got})")
  if got > n then raise (Raise.msg .valueError s!"too many values to unpack (expected {n})")
  for v in items.reverse do push v

/-- Fails with an exception, chained to the one being handled. -/
def raiseChained {α : Type} (exc : Addr) : Act α := do
  let handled ← reads (·.currentHandled)
  vm (Vm.chainContext exc handled)
  throw (.raise exc)

/-- `raise value from cause`. -/
def raiseFrom {α : Type} : Act α := do
  let causeValue ← pop
  let v ← pop
  let exc ← vm (Vm.excOfValue v)
  let cause ← if causeValue.isNone then pure none else some <$> vm (Vm.excOfValue causeValue)
  vm (Vm.setCause exc cause)
  raiseChained exc

/-- Raises the exception being handled again. -/
def reraise {α : Type} : Act α := do
  match ← reads (·.handled.back?) with
  | some hd => throw (.raise hd.exc)
  | none => raise (Raise.msg .runtimeError "No active exception to reraise")

/-- Tests the exception under the popped class information against it. -/
def checkExcMatch : Act Unit := do
  let classinfo ← pop
  let top ← peek
  let h ← heap
  let some (.exception e) := h.deref top
    | internal "CheckExcMatch without an exception on the stack"
  let r ← ofExcept (h.matchesClassinfo e.type Heap.eqDepth classinfo)
  push (.bool r)

/-- Leaves the innermost handler. -/
def popExcept : Act Unit := do
  if (← reads (·.handled.isEmpty)) then internal "PopExcept without an active handler"
  modifyFrame fun f => { f with handled := f.handled.pop }

/-- Runs an instruction whose opcode byte has been read: the next offset is its first operand
byte. -/
def exec (k : Kit) (op : Opcode) : Act StepResult :=
  let next : Act StepResult := pure .next
  match op with
  | .pop => do let _ ← pop; next
  | .dup => do push (← peek); next
  | .dupTwo => do
    let second ← peekAt 1
    let top ← peek
    push second
    push top
    next
  | .rot2 => do rotate 2; next
  | .rot3 => do rotate 3; next
  | .rot4 => do rotate 4; next
  | .nop => next
  | .loadConst => do
    let i ← nextWord
    push ((← unit).constants[i]?.getD .none)
    next
  | .loadNone => do push .none; next
  | .loadTrue => do push (.bool true); next
  | .loadFalse => do push (.bool false); next
  | .loadSmallInt => do push (.int (CodeUnit.signedByte (← nextByte))); next
  | .loadInt => do
    let i ← nextWord
    push (.int ((← unit).ints[i]?.getD 0))
    next
  | .loadFloat => do
    let i ← nextWord
    push (.float ((← unit).floats[i]?.getD 0))
    next
  | .loadBigInt => do
    let i ← nextWord
    push ((← reads (·.code.bigInts[i]?)).getD .none)
    next
  | .loadStr => do
    let i ← nextWord
    push ((← reads (·.code.strings[i]?)).getD .none)
    next
  | .loadBytes => do
    let i ← nextWord
    push ((← reads (·.code.bytes[i]?)).getD .none)
    next
  | .loadLocal => do push (← loadLocal (← nextByte)); next
  | .loadLocalW => do push (← loadLocal (← nextWord)); next
  | .storeLocal => do
    let slot ← nextByte
    storeLocal slot (← pop)
    next
  | .storeLocalW => do
    let slot ← nextWord
    storeLocal slot (← pop)
    next
  | .deleteLocal => do deleteLocal (← nextWord); next
  | .loadDeref => do
    let i ← nextWord
    match ← cellContent (← cellAt i) with
    | some v => push v
    | none => unboundCell i
    next
  | .storeDeref => do
    let i ← nextWord
    let v ← pop
    setCell (← cellAt i) (some v)
    next
  | .deleteDeref => do
    let i ← nextWord
    let a ← cellAt i
    if (← cellContent a).isNone then unboundCell i
    setCell a none
    next
  | .loadClosure => do push (.ref (← cellAt (← nextWord))); next
  | .loadGlobal | .loadName => do push (← loadGlobal (← nextWord)); next
  | .storeGlobal | .storeName => do
    let name ← nameAt (← nextWord)
    let v ← pop
    modifyGlobals (·.set name v)
    next
  | .deleteGlobal | .deleteName => do
    let name ← nameAt (← nextWord)
    let (g, removed) := (← globals).remove name
    if removed.isNone then raise (Raise.nameUndefined name)
    modifyGlobals fun _ => g
    next
  | .binary o => do binaryOp o; next
  | .compareWith o => do compareOp o; next
  | .compareIs | .compareIsNot => do
    let y ← pop
    let x ← pop
    push (.bool (x.same y == (op == .compareIs)))
    next
  | .compareIn | .compareNotIn => do
    let container ← pop
    let needle ← pop
    let found ← ofExcept ((← heap).containsValue container needle)
    push (.bool (found == (op == .compareIn)))
    next
  | .unary o => do
    let x ← pop
    push (← vm (Ops.unary o x))
    next
  | .buildList => do
    let items ← popN (← nextWord)
    push (← vm (Vm.list items))
    next
  | .buildTuple => do
    let items ← popN (← nextWord)
    push (← vm (Vm.tuple items))
    next
  | .buildDict => do buildDict (← nextWord); next
  | .buildSet => do buildSet (← nextWord); next
  | .unpackSequence => do unpackSequence k (← nextByte); next
  | .binarySubscr => do
    let key ← pop
    let obj ← pop
    push (← vm (Ops.getItem obj key))
    next
  | .storeSubscr => do
    let key ← pop
    let obj ← pop
    let v ← pop
    vm (Ops.setItem obj key v)
    next
  | .deleteSubscr => do
    let key ← pop
    let obj ← pop
    vm (Ops.delItem obj key)
    next
  | .loadAttr => do
    let i ← nextWord
    let obj ← pop
    push (← loadAttr obj i)
    next
  | .storeAttr => do
    let name ← nameAt (← nextWord)
    let obj ← pop
    let v ← pop
    vm (Ops.setAttr obj name v)
    next
  | .deleteAttr => do
    let name ← nameAt (← nextWord)
    let obj ← pop
    vm (Ops.delAttr obj name)
    next
  | .jump => do jumpBy (← nextSignedWord); next
  | .jumpBackward => do backEdge (← nextWord); next
  | .jumpIfTrue | .jumpIfFalse => do
    let d ← nextSignedWord
    let v ← pop
    if (← heap).truthy v == (op == .jumpIfTrue) then jumpBy d
    next
  | .jumpIfTrueOrPop | .jumpIfFalseOrPop => do
    let d ← nextSignedWord
    let v ← peek
    if (← heap).truthy v == (op == .jumpIfTrueOrPop) then jumpBy d
    else
      let _ ← pop
    next
  | .getIter => do
    let v ← pop
    push (← vm (Ops.getIter v))
    next
  | .forIter => do
    let d ← nextSignedWord
    let it ← peek
    match ← withContext (k.next it) with
    | some item => push item
    | none => do
      let _ ← pop
      jumpBy d
    next
  | .callArgs n => do callFromStack k n.val; next
  | .callFunction => do callFromStack k (← nextByte); next
  | .callFunctionVarargs => do callVarargs k; next
  | .callMethod => do
    let name ← nameAt (← nextWord)
    let argc ← nextByte
    callMethod k name argc
    next
  | .makeFunction => do
    let i ← nextWord
    let flags ← nextByte
    makeFunction i flags
    next
  | .raise => do
    let exc ← vm (Vm.excOfValue (← pop))
    raiseChained exc
  | .raiseFrom => raiseFrom
  | .reraise => reraise
  | .checkExcMatch => do checkExcMatch; next
  | .popExcept => do popExcept; next
  | .loadAssertionError => do push (.excType .assertionError); next
  | .returnValue => return .exit (.ret (← pop))
  | .returnNone => return .exit (.ret .none)
  | .yield => return .exit (.yield (← pop))
  | .importName => do
    let name ← nameAt (← nextWord)
    push (← vm (Vm.importModule name))
    next
  | .importFrom => do
    let name ← nameAt (← nextWord)
    let m ← peek
    push (← vm (Vm.importFrom m name))
    next

/-- Runs the instruction at the frame's next offset. -/
def step (k : Kit) : Act StepResult := do
  modifyFrame fun f => { f with instrPc := f.pc }
  let b ← nextByte
  let some op := Opcode.ofByte? b
    | internal s!"invalid opcode byte {b}"
  exec k op

end Act

end StackVm
