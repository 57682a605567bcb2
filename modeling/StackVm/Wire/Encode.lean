import StackVm.Wire.Doc
import StackVm.Value.Repr
import StackVm.Machine.Basic

/-! Answers as documents.  Small integers, booleans, `None` and strings are plain document
values; every other value is an object with one tag naming its kind.  A list, dict, set or cell
met again inside itself is written as a cycle, containers nested deeper than `maxNesting` are
cut off, and exception chains are followed to `maxChain` links.  Errors are written with their
class, their message and, for raised exceptions, the exception object. -/

namespace StackVm

namespace Encode

/-- The deepest container nesting written out. -/
def maxNesting : Nat := 200

/-- The longest exception chain written out. -/
def maxChain : Nat := 16

/-- The hex text of bytes. -/
def hex (b : ByteArray) : String :=
  String.join (b.toList.map fun x =>
    (Quote.hexDigit (x.toNat / 16)).toString ++ (Quote.hexDigit (x.toNat % 16)).toString)

/-- A one-field object. -/
def tag (k : String) (v : Doc) : Doc := .record [(k, v)]

/-- The document of a generator's state. -/
def generatorState (g : Generator) : Doc :=
  .record [("kind", .str g.kind.typeName), ("name", .str g.name), ("started", .bool g.started),
    ("running", .bool g.running), ("finished", .bool g.finished)]

/-- The document of a traceback entry. -/
def traceEntry (t : TraceEntry) : Doc := .list [.str t.codeName, .nat t.offset, .nat t.line]

mutual

/-- The document of a value, inside the given containers and exception links. -/
def value (h : Heap) : Nat → List Addr → Nat → Value → Doc
  | 0, _, _, _ => tag "truncated" (.bool true)
  | fuel + 1, seen, chain, v =>
    match v with
    | .none => .null
    | .bool b => .bool b
    | .int i => .int i
    | .float f => tag "float" (.str (FloatText.render f))
    | .excType t => tag "exctype" (.str t.name)
    | .ref a =>
      match h.get? a with
      | none => .null
      | some o =>
        let inside := seen.length
        let cyclic := seen.contains a
        match o with
        | .bigInt i => tag "int" (.str (toString i))
        | .str s => .str s
        | .bytes b => tag "bytes" (.str (hex b))
        | .tuple xs =>
          if inside ≥ maxNesting then tag "truncated" (.bool true)
          else tag "tuple" (.list (xs.toList.map (value h fuel (seen ++ [a]) chain)))
        | .list xs =>
          if cyclic then tag "cycle" (.str "list")
          else if inside ≥ maxNesting then tag "truncated" (.bool true)
          else tag "list" (.list (xs.toList.map (value h fuel (seen ++ [a]) chain)))
        | .set xs =>
          if cyclic then tag "cycle" (.str "set")
          else if inside ≥ maxNesting then tag "truncated" (.bool true)
          else tag "set" (.list (xs.toList.map (value h fuel (seen ++ [a]) chain)))
        | .dict es =>
          if cyclic then tag "cycle" (.str "dict")
          else if inside ≥ maxNesting then tag "truncated" (.bool true)
          else tag "dict" (.list (es.toList.map fun (k, x) =>
            .list [value h fuel (seen ++ [a]) chain k, value h fuel (seen ++ [a]) chain x]))
        | .cell c =>
          if cyclic then tag "cycle" (.str "cell")
          else if inside ≥ maxNesting then tag "truncated" (.bool true)
          else tag "cell" (.list ((c.map (value h fuel (seen ++ [a]) chain)).toList))
        | .code c => tag "code" (.str c.unit.name)
        | .function f => tag "function" (.str (h.codeName f.code))
        | .native n => tag "native" (.str n.name)
        | .module m => tag "module" (.str m.name)
        | .object x => tag "object" (.str x.typeName)
        | .exception _ => tag "exception" (exc h fuel seen chain a)
        | .generator g => tag "generator" (generatorState g)
        | .iterator _ => tag "iterator" .null
        | .globals _ => .null

/-- The document of an exception object, `chain` links into an exception chain. -/
def exc (h : Heap) : Nat → List Addr → Nat → Addr → Doc
  | 0, _, _, _ => tag "truncated" (.bool true)
  | fuel + 1, seen, chain, a =>
    match h.get? a with
    | some (.exception e) =>
      let link (l : Option Addr) : Doc :=
        match l with
        | none => .null
        | some b => if chain ≥ maxChain then tag "truncated" (.bool true)
          else exc h fuel seen (chain + 1) b
      let payload := if e.type == .stopIteration
        then [("payload", value h fuel seen chain e.payloadValue)] else []
      .record ([("type", .str e.type.name),
        ("message", match e.message with
          | some m => .str m
          | none => .null),
        ("kind", .str e.errorKind.name)] ++ payload ++
        [("context", link e.context), ("cause", link e.cause),
         ("suppress_context", .bool e.suppressContext),
         ("traceback", .list (e.traceback.toList.map traceEntry))])
    | _ => .null

end

/-- The depth budget of a written value. -/
def budget : Nat := 100000

/-- The document of a value. -/
def ofValue (h : Heap) (v : Value) : Doc := value h budget [] 0 v

/-- The document of an exception. -/
def ofExc (h : Heap) (a : Addr) : Doc := exc h budget [] 0 a

/-- The answer for a fault. -/
def fault (h : Heap) : Fault → Doc
  | .raise a =>
    match h.get? a with
    | some (.exception e) =>
      .record [("error", .str e.type.name), ("message", .str e.display), ("exception", ofExc h a)]
    | _ => .record [("error", .str "panic"), ("message", .str "the library panicked")]
  | .internal e =>
    .record [("error", .str "InternalError"), ("message", .str ("internal error: " ++ e.message)),
      ("internal", .str e.variant), ("kind", .str ErrorKind.stackUsageViolation.name)]
  | .exhausted => .record [("error", .str "panic"), ("message", .str "the library panicked")]

/-- The answer for a rejected code unit. -/
def codeError (e : CodeError) : Doc :=
  .record [("error", .str "CodeError"), ("message", .str e.message), ("variant", .str e.variant),
    ("fields", .record (e.fields.map fun (k, f) => (k, match f with
      | .num n => .int n
      | .text s => .str s)))]

/-- The answer for a malformed request. -/
def badInput (msg : String) : Doc :=
  .record [("error", .str "BadInput"), ("message", .str msg)]

/-- The document of a handler range. -/
def range (r : HandlerRange) : Doc := .list [.nat r.start, .nat r.stop, .nat r.handler, .nat r.depth]

/-- The document of a built code unit and its labels. -/
def codeUnit (h : Heap) (u : CodeUnit) (labels : Array (String × Nat)) : Doc :=
  .record [("name", .str u.name),
    ("bytecode", .list (u.bytecode.toList.map fun b => .nat b.toNat)),
    ("stack_size", .nat u.stackSize), ("arg_count", .nat u.argCount),
    ("flags", .nat u.flags.bits),
    ("names", .list (u.names.toList.map .str)),
    ("local_names", .list (u.localNames.toList.map .str)),
    ("cell_names", .list (u.cellNames.toList.map .str)),
    ("free_names", .list (u.freeNames.toList.map .str)),
    ("constants", .list (u.constants.toList.map (ofValue h))),
    ("handlers", .list (u.handlers.toList.map range)),
    ("cell_args", .list (u.cellArgs.toList.map fun (c, p) => .list [.nat c, .nat p])),
    ("first_line", .nat u.firstLine),
    ("lines", .list ((List.range u.bytecode.size).map fun o => .nat (u.lineFor o))),
    ("labels", .record (labels.toList.map fun (l, o) => (l, .nat o)))]

/-- The document of the counters. -/
def stats (s : Stats) : Doc :=
  .record [("cache_hits", .nat s.cacheHits), ("cache_misses", .nat s.cacheMisses),
    ("osr_deopts", .nat s.osrDeopts), ("osr_entries", .nat s.osrEntries),
    ("resolved_sites", .nat s.resolvedSites)]

end Encode

end StackVm
