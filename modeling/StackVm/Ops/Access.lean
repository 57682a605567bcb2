import StackVm.Ops.Compare
import StackVm.Value.Repr
import StackVm.Machine.Basic

/-! Items, lengths, attributes and iteration of values.

An index is an integer or a boolean; a negative index counts from the end, and an index
outside the sequence, or too wide for a machine word, is an `IndexError`.  Dict keys must be
hashable, and a missing key raises `KeyError` with the key's text.  Attributes exist on
modules, on host objects (the value of a slot), on exceptions (`value` of a `StopIteration`,
`args`, the chaining links), and as methods bound to lists, dicts and generators.  An iterator
walks a list live, a snapshot of anything immutable, the keys of a dict or the members of a set,
which must keep their size while being walked. -/

namespace StackVm

namespace Ops

/-- The position an index denotes in a sequence of length `len`. -/
def normalizeIndex (h : Heap) (index : Value) (len : Nat) (kind outOfRange : String) :
    Except Raise Nat :=
  let raw : Except Raise Int := match index with
    | .bool b => .ok (if b then 1 else 0)
    | .int i => .ok i
    | v => match h.deref v with
      | some (.bigInt _) => .error (Raise.msg .indexError outOfRange)
      | _ => .error (Raise.msg .typeError
          s!"{kind} indices must be integers or slices, not {h.typeName v}")
  raw.bind fun i =>
    let pos := if i < 0 then i + len else i
    if 0 ≤ pos ∧ pos < len then .ok pos.toNat else .error (Raise.msg .indexError outOfRange)

/-- `obj[key]`. -/
def getItem (obj key : Value) : Vm Value := do
  let h := (← get).heap
  match h.deref obj with
  | some (.list xs) =>
    let i ← Vm.ofExcept (normalizeIndex h key xs.size "list" "list index out of range")
    pure (xs[i]?.getD .none)
  | some (.tuple xs) =>
    let i ← Vm.ofExcept (normalizeIndex h key xs.size "tuple" "tuple index out of range")
    pure (xs[i]?.getD .none)
  | some (.str s) =>
    let cs := s.toList
    let i ← Vm.ofExcept (normalizeIndex h key cs.length "string" "string index out of range")
    Vm.str (cs[i]?.getD ' ').toString
  | some (.bytes b) =>
    let i ← Vm.ofExcept (normalizeIndex h key b.size "byte" "index out of range")
    pure (.int (b[i]?.getD 0).toNat)
  | some (.dict es) =>
    Vm.ofExcept (h.checkHashable key)
    match h.lookup es key with
    | some v => pure v
    | none => Vm.raiseMsg .keyError (h.repr key)
  | _ => Vm.raiseMsg .typeError s!"'{h.typeName obj}' object is not subscriptable"

/-- `obj[key] = value`. -/
def setItem (obj key value : Value) : Vm Unit := do
  let h := (← get).heap
  match obj, h.deref obj with
  | .ref a, some (.list xs) =>
    let i ← Vm.ofExcept
      (normalizeIndex h key xs.size "list" "list assignment index out of range")
    Vm.modifyObj a (Obj.mapList (·.set! i value))
  | .ref a, some (.dict _) =>
    Vm.ofExcept (h.checkHashable key)
    Vm.modifyObj a (Obj.mapDict (h.insertKey · key value))
  | _, _ =>
    Vm.raiseMsg .typeError s!"'{h.typeName obj}' object does not support item assignment"

/-- `del obj[key]`. -/
def delItem (obj key : Value) : Vm Unit := do
  let h := (← get).heap
  match obj, h.deref obj with
  | .ref a, some (.list xs) =>
    let i ← Vm.ofExcept
      (normalizeIndex h key xs.size "list" "list assignment index out of range")
    Vm.modifyObj a (Obj.mapList (·.eraseIdxIfInBounds i))
  | .ref a, some (.dict es) =>
    Vm.ofExcept (h.checkHashable key)
    match h.findKey es key with
    | some i =>
      Vm.modifyObj a (Obj.mapDict (·.eraseIdxIfInBounds i))
    | none => Vm.raiseMsg .keyError (h.repr key)
  | _, _ =>
    Vm.raiseMsg .typeError s!"'{h.typeName obj}' object does not support item deletion"

/-- The length of a container. -/
def len (h : Heap) (v : Value) : Except Raise Nat :=
  match h.deref v with
  | some (.str s) => .ok s.length
  | some (.bytes b) => .ok b.size
  | some (.tuple xs) | some (.list xs) | some (.set xs) => .ok xs.size
  | some (.dict es) => .ok es.size
  | _ => .error (Raise.msg .typeError s!"object of type '{h.typeName v}' has no len()")

/-- A method bound to its receiver. -/
def bound (n : Native) : Vm Value := return .ref (← Vm.alloc (.native n))

/-- `obj.name`. -/
def getAttr (obj : Value) (name : String) : Vm Value := do
  let h := (← get).heap
  let missing : Vm Value := Vm.raise (Raise.noAttribute (h.typeName obj) name)
  match obj, h.deref obj with
  | _, some (.module m) =>
    match assocGet? m.attrs name with
    | some v => pure v
    | none => Vm.raiseMsg .attributeError s!"module '{m.name}' has no attribute '{name}'"
  | _, some (.object o) =>
    match o.attr? name with
    | some v => pure v
    | none => missing
  | _, some (.exception e) =>
    match name with
    | "value" => if e.type == .stopIteration then pure e.payloadValue else missing
    | "args" =>
      match e.message with
      | some m =>
        if e.payloadValue.isNone then do
          let t ← Vm.str m
          Vm.tuple #[t]
        else Vm.tuple #[e.payloadValue]
      | none => Vm.tuple #[]
    | "__context__" => pure ((e.context.map Value.ref).getD .none)
    | "__cause__" => pure ((e.cause.map Value.ref).getD .none)
    | "__suppress_context__" => pure (.bool e.suppressContext)
    | _ => missing
  | .ref a, some (.list _) =>
    match name with
    | "append" => bound (.listAppend a)
    | "extend" => bound (.listExtend a)
    | "pop" => bound (.listPop a)
    | _ => missing
  | .ref a, some (.dict _) =>
    match name with
    | "get" => bound (.dictGet a)
    | "keys" => bound (.dictKeys a)
    | "values" => bound (.dictValues a)
    | "items" => bound (.dictItems a)
    | _ => missing
  | .ref a, some (.generator _) =>
    match name with
    | "send" => bound (.genSend a)
    | "throw" => bound (.genThrow a)
    | "close" => bound (.genClose a)
    | _ => missing
  | _, _ => missing

/-- `obj.name = value`. -/
def setAttr (obj : Value) (name : String) (value : Value) : Vm Unit := do
  let h := (← get).heap
  match obj, h.deref obj with
  | .ref a, some (.object o) =>
    match o.slotOf name with
    | some i =>
      if i < o.slots.size then
        Vm.modifyObj a (Obj.mapHost fun p => { p with slots := p.slots.set! i value })
      else Vm.raise (Raise.noAttribute o.typeName name)
    | none => Vm.raise (Raise.noAttribute o.typeName name)
  | .ref a, some (.module _) =>
    Vm.modifyObj a (Obj.mapModule fun m => { m with attrs := assocSet m.attrs name value })
  | _, _ =>
    let t := h.typeName obj
    Vm.raiseMsg .attributeError
      s!"'{t}' object has no attribute '{name}' and no __dict__ for setting new attributes"

/-- `del obj.name`. -/
def delAttr (obj : Value) (name : String) : Vm Unit := do
  let h := (← get).heap
  match obj, h.deref obj with
  | .ref a, some (.module m) =>
    match assocGet? m.attrs name with
    | some _ =>
      Vm.modifyObj a (Obj.mapModule fun m => { m with attrs := assocErase m.attrs name })
    | none => Vm.raiseMsg .attributeError s!"module '{m.name}' has no attribute '{name}'"
  | _, _ => Vm.raise (Raise.noAttribute (h.typeName obj) name)

/-- The iterator over a value: an iterator or a plain generator is its own. -/
def getIter (v : Value) : Vm Value := do
  let h := (← get).heap
  let notIterable : Vm Value := Vm.raise (Raise.notIterable (h.typeName v))
  let fresh (s : IterSource) : Vm Value := return .ref (← Vm.alloc (.iterator { source := s }))
  match v, h.deref v with
  | _, some (.iterator _) => pure v
  | _, some (.generator g) => if g.kind.isIterable then pure v else notIterable
  | .ref a, some (.list _) => fresh (.list a)
  | _, some (.tuple xs) => fresh (.tuple xs)
  | _, some (.str s) => fresh (.chars s.toList.toArray)
  | _, some (.bytes b) => fresh (.bytes b)
  | .ref a, some (.dict es) => fresh (.dictKeys a es.size)
  | .ref a, some (.set xs) => fresh (.set a xs.size)
  | _, _ => notIterable

/-- The iterator over `range(start, stop, step)`, for a step other than zero. -/
def rangeIter (start stop step : Int) : Iter :=
  let span := if step > 0 then stop - start else start - stop
  let width := step.natAbs
  let len := if span ≤ 0 then 0 else (span.toNat + width - 1) / width
  { source := .range start step len }

/-- The next item of the iterator at an address; `none` once it is exhausted. -/
def iterNext (a : Addr) (it : Iter) : Vm (Option Value) := do
  let h := (← get).heap
  let i := it.index
  let item : Option Value ← match it.source with
    | .list l => pure (match h.get? l with
      | some (.list xs) => xs[i]?
      | _ => none)
    | .tuple xs => pure xs[i]?
    | .chars cs => match cs[i]? with
      | some c => some <$> Vm.str c.toString
      | none => pure none
    | .bytes b => pure ((b[i]?).map fun x => .int x.toNat)
    | .range start step len =>
      if i < len then some <$> Vm.int (start + i * step) else pure none
    | .dictKeys d len =>
      match h.get? d with
      | some (.dict es) =>
        if es.size != len then Vm.raiseMsg .runtimeError "dictionary changed size during iteration"
        else pure ((es[i]?).map (·.1))
      | _ => pure none
    | .set s len =>
      match h.get? s with
      | some (.set xs) =>
        if xs.size != len then Vm.raiseMsg .runtimeError "Set changed size during iteration"
        else pure xs[i]?
      | _ => pure none
  if item.isSome then
    Vm.modifyObj a (Obj.mapIter fun it => { it with index := it.index + 1 })
  pure item

end Ops

end StackVm
