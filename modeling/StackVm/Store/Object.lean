import StackVm.Code.Unit

/-! The objects of the store.  Strings, byte strings, wide integers and tuples are immutable;
lists, dicts, sets, cells, modules, namespaces and exceptions change in place, and every
holder of their address sees the change.  Dicts and sets keep their entries in insertion
order.  A generator parks the frame of its suspended body; an iterator keeps its position in
the container it walks. -/

namespace StackVm

/-- One step of a traceback: the code unit, the offset and the line an exception passed. -/
structure TraceEntry where
  codeName : String
  offset : Nat
  line : Nat
  deriving DecidableEq, Repr, Inhabited

/-- An exception object. -/
structure Exc where
  type : ExcType
  message : Option String
  payload : Option Value := none
  kind : Option ErrorKind := none
  context : Option Addr := none
  cause : Option Addr := none
  suppressContext : Bool := false
  traceback : Array TraceEntry := #[]
  deriving Inhabited

namespace Exc

/-- The error kind: the one given, or the one of the class. -/
def errorKind (e : Exc) : ErrorKind := e.kind.getD (ErrorKind.ofType e.type)

/-- The payload, `None` when absent. -/
def payloadValue (e : Exc) : Value := e.payload.getD .none

/-- `T: message`, or `T` without a message. -/
def display (e : Exc) : String :=
  match e.message with
  | some m => e.type.name ++ ": " ++ m
  | none => e.type.name

/-- Appends a traceback entry unless it repeats the last one. -/
def pushTrace (e : Exc) (t : TraceEntry) : Exc :=
  if e.traceback.back? == some t then e else { e with traceback := e.traceback.push t }

end Exc

/-- A function: a code unit with the namespace it resolves globals in, its default values and
the cells it closes over. -/
structure Function where
  code : Addr
  globals : Addr
  defaults : Array Value
  closure : Array Addr
  deriving Inhabited

/-- The builtin functions. -/
inductive Builtin where
  | len | range | list | tuple | iter | next | isinstance | abs | repr | sum
  deriving DecidableEq, Repr, Inhabited

namespace Builtin

/-- Every builtin function. -/
def all : List Builtin := [len, range, list, tuple, iter, next, isinstance, abs, repr, sum]

/-- The builtin's name. -/
def name : Builtin → String
  | len => "len" | range => "range" | list => "list" | tuple => "tuple" | iter => "iter"
  | next => "next" | isinstance => "isinstance" | abs => "abs" | repr => "repr" | sum => "sum"

end Builtin

/-- A function implemented by the engine: a builtin, or a method bound to its receiver. -/
inductive Native where
  | builtin (b : Builtin)
  | listAppend (list : Addr)
  | listExtend (list : Addr)
  | listPop (list : Addr)
  | dictGet (dict : Addr)
  | dictKeys (dict : Addr)
  | dictValues (dict : Addr)
  | dictItems (dict : Addr)
  | genSend (gen : Addr)
  | genThrow (gen : Addr)
  | genClose (gen : Addr)
  deriving Inhabited

/-- The native's name. -/
def Native.name : Native → String
  | .builtin b => b.name
  | .listAppend _ => "append" | .listExtend _ => "extend" | .listPop _ => "pop"
  | .dictGet _ => "get" | .dictKeys _ => "keys" | .dictValues _ => "values"
  | .dictItems _ => "items"
  | .genSend _ => "send" | .genThrow _ => "throw" | .genClose _ => "close"

/-- What an iterator walks. -/
inductive IterSource where
  /-- A list, read live: items appended while iterating are seen. -/
  | list (a : Addr)
  | tuple (items : Array Value)
  | chars (cs : Array Char)
  | bytes (b : ByteArray)
  /-- `len` integers from `start` on, `step` apart. -/
  | range (start step : Int) (len : Nat)
  /-- The keys of a dict, which must keep the size it had when iteration began. -/
  | dictKeys (a : Addr) (len : Nat)
  /-- The members of a set, which must keep the size it had when iteration began. -/
  | set (a : Addr) (len : Nat)
  deriving Inhabited

/-- An iterator: its source and its position. -/
structure Iter where
  source : IterSource
  index : Nat := 0
  deriving Inhabited

/-- An object of the host: its type name, an optional layout id, its attribute names and the
values of the leading ones.  The slot of a name is its position among the names. -/
structure HostObject where
  typeName : String
  shape : Option Nat
  slotNames : Array String
  slots : Array Value
  deriving Inhabited

namespace HostObject

/-- The slot holding a name. -/
def slotOf (h : HostObject) (n : String) : Option Nat := h.slotNames.idxOf? n

/-- The value in a slot, if the slot holds one. -/
def readSlot (h : HostObject) (i : Nat) : Option Value := h.slots[i]?

/-- The value of an attribute. -/
def attr? (h : HostObject) (n : String) : Option Value := (h.slotOf n).bind h.readSlot

end HostObject

/-- An importable module: its name and attributes. -/
structure Module where
  name : String
  attrs : Array (String × Value)
  deriving Inhabited

/-- A global namespace, with a version bumped by every store and every removal. -/
structure Globals where
  names : Array (String × Value) := #[]
  version : Nat := 0
  deriving Inhabited

/-- Lookup in an association array. -/
def assocGet? (xs : Array (String × Value)) (n : String) : Option Value :=
  (xs.find? (·.1 == n)).map (·.2)

/-- Stores into an association array, keeping the position of an existing name. -/
def assocSet (xs : Array (String × Value)) (n : String) (v : Value) : Array (String × Value) :=
  match xs.findIdx? (·.1 == n) with
  | some i => xs.set! i (n, v)
  | none => xs.push (n, v)

/-- Removes a name from an association array. -/
def assocErase (xs : Array (String × Value)) (n : String) : Array (String × Value) :=
  xs.filter (·.1 != n)

namespace Globals

/-- The value bound to a name. -/
def get? (g : Globals) (n : String) : Option Value := assocGet? g.names n

/-- Binds a name. -/
def set (g : Globals) (n : String) (v : Value) : Globals :=
  { names := assocSet g.names n v, version := g.version + 1 }

/-- Unbinds a name; the version changes only if the name was bound. -/
def remove (g : Globals) (n : String) : Globals × Option Value :=
  match g.get? n with
  | some v => ({ names := assocErase g.names n, version := g.version + 1 }, some v)
  | none => (g, none)

end Globals

/-- A code unit in the store, with its pool values placed once, and its profile. -/
structure CodeObj where
  unit : CodeUnit
  strings : Array Value
  bigInts : Array Value
  bytes : Array Value
  profile : Nat
  deriving Inhabited

/-- An exception being handled, with the range that caught it. -/
structure Handled where
  exc : Addr
  range : HandlerRange
  deriving Inhabited

/-- The storage of one activation. -/
structure Frame where
  code : CodeObj
  codeRef : Addr
  globals : Addr
  locals : Array (Option Value)
  derefs : Array Addr
  stack : Array Value := #[]
  pc : Nat := 0
  instrPc : Nat := 0
  handled : Array Handled := #[]
  inherited : Option Addr := none
  deriving Inhabited

namespace Frame

/-- The unit the frame runs. -/
@[inline] def unit (f : Frame) : CodeUnit := f.code.unit

/-- The exception a raise here would be chained to. -/
@[inline] def currentHandled (f : Frame) : Option Addr :=
  match f.handled.back? with
  | some h => some h.exc
  | none => f.inherited

/-- The traceback entry of the current instruction. -/
def traceEntry (f : Frame) : TraceEntry :=
  ⟨f.unit.name, f.instrPc, f.unit.lineFor f.instrPc⟩

end Frame

/-- A generator, coroutine or asynchronous generator. -/
structure Generator where
  function : Addr
  name : String
  baseArgs : Array Value
  kind : GeneratorKind
  frame : Option Frame := none
  started : Bool := false
  running : Bool := false
  finished : Bool := false
  deriving Inhabited

/-- A generator whose body is done: it drops its frame. -/
def Generator.finish (g : Generator) : Generator :=
  { g with finished := true, running := false, frame := none }

/-- An object of the store. -/
inductive Obj where
  | bigInt (i : Int)
  | str (s : String)
  | bytes (b : ByteArray)
  | tuple (items : Array Value)
  | list (items : Array Value)
  | dict (entries : Array (Value × Value))
  | set (items : Array Value)
  | cell (v : Option Value)
  | code (c : CodeObj)
  | function (f : Function)
  | native (n : Native)
  | exception (e : Exc)
  | generator (g : Generator)
  | iterator (it : Iter)
  | module (m : Module)
  | object (h : HostObject)
  | globals (g : Globals)
  deriving Inhabited

end StackVm
