import StackVm.Wire.Spec
import StackVm.Machine.Setup
import StackVm.Interp.Function
import StackVm.Value.Equality

/-! Placing descriptions in the store.  A value description becomes a value: containers are
built item by item in order, a set or dict keeps the first of equal members or keys, a
function is made against the request's namespace.  A code description is assembled or checked
and then placed with its pools.  Placing fails with a machine fault, with the reason a code
unit is rejected, or, when the description itself is at fault (an unknown variable or unit,
an unhashable member), with a complaint about the input. -/

namespace StackVm

/-- Why placing a description failed. -/
inductive Failure where
  | fault (f : Fault)
  | code (e : CodeError)
  | badInput (msg : String)
  deriving Inhabited

/-- Computations that place descriptions. -/
abbrev Place := EStateM Failure Machine

/-- What descriptions may refer to: variables, named code units and the namespace functions
are made against. -/
structure Scope where
  vars : Array (String × Value) := #[]
  codes : Array (String × Addr) := #[]
  globals : Addr
  deriving Inhabited

namespace Place

/-- Runs a machine computation while placing. -/
def vm {α : Type} (x : Vm α) : Place α := fun m =>
  match x m with
  | .ok a m => .ok a m
  | .error e m => .error (.fault e) m

/-- Fails with a complaint about the input. -/
def bad {α : Type} (msg : String) : Place α := throw (.badInput msg)

/-- The store. -/
def heap : Place Heap := fun m => .ok m.heap m

/-- Checks that a value may be a set member or dict key. -/
def hashable (v : Value) : Place Unit := do
  match (← heap).checkHashable v with
  | .ok () => pure ()
  | .error _ => bad "unhashable value"

/-- The cell a closure item refers to. -/
def cellAddr (v : Value) : Place Addr := do
  match v, (← heap).deref v with
  | .ref a, some (.cell _) => pure a
  | _, _ => bad "a closure holds cells"

/-- Checks a unit and places it. -/
def checked (u : CodeUnit) : Place Addr := do
  match u.validate (← heap).isCode with
  | .ok () => vm (Vm.newCode u)
  | .error e => throw (.code e)

/-- The unit of a raw description with its constants placed. -/
def rawUnit (h : RawHeader) (constants : Array Value) : Place CodeUnit := do
  let handlers ← match h.handlers with
    | .ranges rs => pure rs
    | .triples ws => match HandlerTable.ofTriples ws with
      | .ok t => pure t
      | .error e => throw (.code e)
  pure { name := h.name, bytecode := h.bytecode, constants, ints := h.ints, floats := h.floats,
         bigInts := h.bigInts, strings := h.strings, bytes := h.bytes, names := h.names,
         localNames := h.localNames, cellNames := h.cellNames, freeNames := h.freeNames,
         argCount := h.argCount, flags := h.flags, stackSize := h.stackSize, handlers,
         cellArgs := h.cellArgs, lines := h.lines, firstLine := h.firstLine }

mutual

/-- Places a value description. -/
def value (sc : Scope) : Nat → ValueSpec → Place Value
  | 0, _ => bad "too deep"
  | fuel + 1, v =>
    match v with
    | .none => pure .none
    | .bool b => pure (.bool b)
    | .int i => vm (Vm.int i)
    | .float f => pure (.float f)
    | .str s => vm (Vm.str s)
    | .bytes b => return .ref (← vm (Vm.alloc (.bytes b)))
    | .list xs => do vm (Vm.list (← values sc fuel xs))
    | .tuple xs => do vm (Vm.tuple (← values sc fuel xs))
    | .set xs => do
      let items ← values sc fuel xs
      let mut members : Array Value := #[]
      for x in items do
        hashable x
        members := (← heap).insertMember members x
      return .ref (← vm (Vm.alloc (.set members)))
    | .dict es => do
      let mut entries : Array (Value × Value) := #[]
      for (k, x) in es do
        let key ← value sc fuel k
        let item ← value sc fuel x
        hashable key
        entries := (← heap).insertKey entries key item
      return .ref (← vm (Vm.alloc (.dict entries)))
    | .excType t => pure (.excType t)
    | .exception t message payload => do
      match payload with
      | some p => return .ref (← vm (Vm.excWithPayload t (← value sc fuel p)))
      | none => return .ref (← vm (Vm.newExc { type := t, message }))
    | .var n =>
      match sc.vars.findRev? (·.1 == n) with
      | some (_, x) => pure x
      | none => bad s!"unknown variable {n}"
    | .code c => do return .ref (← code sc fuel c).1
    | .cell c => do
      let content ← match c with
        | some x => some <$> value sc fuel x
        | none => pure none
      return .ref (← vm (Vm.alloc (.cell content)))
    | .function c defaults closure => do
      let (codeAddr, _) ← code sc fuel c
      let defaults ← values sc fuel defaults
      let cells ← (← values sc fuel closure).mapM cellAddr
      return .ref (← vm (Vm.newFunction codeAddr sc.globals defaults cells))
    | .object type shape attrs names => do
      let slots ← attrs.toArray.mapM fun (_, x) => value sc fuel x
      let slotNames := (attrs.map (·.1) ++ names).toArray
      return .ref (← vm (Vm.alloc (.object { typeName := type, shape, slotNames, slots })))

/-- Places value descriptions in order. -/
def values (sc : Scope) : Nat → List ValueSpec → Place (Array Value)
  | 0, _ => bad "too deep"
  | fuel + 1, xs => xs.toArray.mapM (value sc fuel)

/-- Places a code description, with the offsets of its labels. -/
def code (sc : Scope) : Nat → CodeSpec → Place (Addr × Array (String × Nat))
  | 0, _ => bad "too deep"
  | fuel + 1, c =>
    match c with
    | .named n =>
      match sc.codes.find? (·.1 == n) with
      | some (_, a) => pure (a, #[])
      | none => bad s!"unknown code {n}"
    | .listing header lines => do
      let asm ← instrs sc fuel lines
      match { header with code := asm }.assemble (← heap).isCode with
      | .ok (u, labels) => pure (← vm (Vm.newCode u), labels)
      | .error (.code e) => throw (.code e)
      | .error (.undefinedLabel l) => bad s!"undefined label {l}"
    | .raw header constants => do
      let cs ← values sc fuel constants
      pure (← checked (← rawUnit header cs), #[])

/-- Places the operands of assembly lines. -/
def instrs (sc : Scope) : Nat → List InstrSpec → Place (List Asm)
  | 0, _ => bad "too deep"
  | fuel + 1, lines => lines.mapM fun i =>
    match i with
    | .plain a => pure a
    | .loadConst v => do return .instr .loadConst (.const (← value sc fuel v))
    | .makeFunction c flags => do
      let (a, _) ← code sc fuel c
      return .instr .makeFunction (.function (.ref a) flags)
    | .makeFunctionAt index flags => pure (.instr .makeFunction (.constIndex index flags))

end

end Place

end StackVm
