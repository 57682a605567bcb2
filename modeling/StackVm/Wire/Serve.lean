import StackVm.Wire.Place
import StackVm.Wire.Encode
import StackVm.Interp.Run
import StackVm.Machine.Env
import StackVm.Wire.Json

/-! Requests and their answers.  Every request runs on a fresh machine with an empty namespace.
The single operations (operators, item and attribute access, iteration, equality, hashing, the
class hierarchy, the builder, the handler-table encoding, loop records, loop compilation and
settings) answer one result; `run` builds a unit and calls it, optionally with the counters;
`session` prepares units, modules and names and then answers each of its steps in turn, where
a step may keep its result under a variable for later steps.  A request that cannot be read
is answered with a complaint about the input, as is a session any of whose steps cannot be
read. -/

namespace StackVm

namespace Serve

open Spec (Decode)

/-- A successful answer. -/
def ok (d : Doc) : Doc := .record [("ok", d)]

/-- The answer of a failure. -/
def failure (h : Heap) : Failure → Doc
  | .fault f => Encode.fault h f
  | .code e => Encode.codeError e
  | .badInput msg => Encode.badInput msg

/-- A fresh machine with an empty namespace, and the scope of a request on it. -/
def fresh (config : Config) (fastPaths : Bool) : Machine × Scope :=
  let m := Machine.boot config fastPaths
  let (heap, g) := m.heap.alloc (.globals {})
  ({ m with heap }, { globals := g })

/-- The answer of a computation on a machine, with the machine it leaves. -/
def answer (x : Place Doc) (m : Machine) : Doc × Machine :=
  match x m with
  | .ok d m => (d, m)
  | .error e m => (failure m.heap e, m)

/-- A value as a successful answer. -/
def okValue (v : Value) : Place Doc := do pure (ok (Encode.ofValue (← Place.heap) v))

/-- The items of an array as a successful answer. -/
def okItems (vs : Array Value) : Place Doc := do
  let h ← Place.heap
  pure (.record [("items", .list (vs.toList.map (Encode.ofValue h)))])

/-- A boolean field, or a default. -/
def flag (d : Doc) (k : String) (dflt : Bool) : Decode Bool :=
  Spec.opt d k dflt fun b => match b.bool? with
    | some x => .ok x
    | none => .error s!"{k} is not a boolean"

/-- A value description in a field. -/
def valueAt (d : Doc) (k : String) : Decode ValueSpec := do
  Spec.value Spec.depth (← Spec.need d k)

/-- A list of value descriptions in a field, empty when absent. -/
def valuesAt (d : Doc) (k : String) : Decode (List ValueSpec) :=
  Spec.opt d k [] fun xs => do Spec.values Spec.depth (← Spec.array xs).toList

/-- A code description in a field. -/
def codeAt (d : Doc) (k : String) : Decode CodeSpec := do
  Spec.code Spec.depth (← Spec.need d k)

/-- An operator named in the `operator` field. -/
def operator {α : Type} (d : Doc) (ofName? : String → Option α) : Decode α := do
  let n ← Spec.text (← Spec.need d "operator")
  match ofName? n with
  | some o => pure o
  | none => .error s!"unknown operator {n}"

/-- The fields of an object in key order. -/
def sortedFields (d : Doc) : Array (String × Doc) :=
  d.fields.qsort fun a b => a.1 < b.1

/-- The configuration of a request and whether operators may use their fast paths. -/
def config (d : Doc) : Decode (Config × Bool) := do
  match d.field? "config" with
  | none => pure ({}, true)
  | some c =>
    let osrThreshold ← match c.field? "osr_threshold" with
      | none => pure (some 5000)
      | some .null => pure none
      | some n => some <$> Spec.natural n
    let maxDepth ← Spec.opt c "max_recursion_depth" 256 Spec.natural
    let specialize ← flag c "specialize" true
    let fast ← flag c "fast_paths" true
    pure ({ osrThreshold, maxDepth, specialize }, fast)

/-- Places value descriptions. -/
def place (sc : Scope) (vs : List ValueSpec) : Place (Array Value) :=
  Place.values sc Spec.depth vs

/-- Places one value description. -/
def placeOne (sc : Scope) (v : ValueSpec) : Place Value := Place.value sc Spec.depth v

/-- Runs a computation on values placed on a fresh machine. -/
def withValues (specs : List ValueSpec) (k : Array Value → Place Doc) : Doc :=
  let (m, sc) := fresh {} true
  (answer (do k (← place sc specs)) m).1

/-- The value at a position, `None` past the end. -/
def nth (vs : Array Value) (i : Nat) : Value := vs[i]?.getD .none

/-- Answers an operation on a fresh machine whose operands are the given fields. -/
def onValues (req : Doc) (keys : List String) (k : Array Value → Place Doc) : Decode Doc := do
  let specs ← keys.mapM (valueAt req)
  pure (withValues specs k)

/-- The answer of the loop-record operation. -/
def loopEvents (threshold : Nat) (events : Array String) : Decode Doc := do
  let mut l : LoopInfo := { header := 0, backEdge := 0 }
  let mut out : Array Doc := #[]
  for e in events do
    let returned ← match e with
      | "iter" =>
        let (l', s) := l.recordIteration threshold
        l := l'
        pure (Doc.str s.name)
      | "ready" => l := l.markReady; pure Doc.null
      | "failed" => l := l.markFailed; pure Doc.null
      | "deopt" => l := l.recordDeopt; pure Doc.null
      | other => throw s!"unknown loop event {other}"
    out := out.push (.record [("returned", returned), ("decision", .str l.state.name),
      ("trip_count", .nat l.trips), ("deopts", .nat l.deopts),
      ("should_compile", .bool l.state.shouldCompile), ("can_enter", .bool l.state.canEnter)])
  pure (ok (.arr out))

/-- The offset a loop position names: a label of the built unit or an offset. -/
def offsetOf (labels : Array (String × Nat)) (d : Doc) : Place Nat :=
  match d with
  | .str l => match labels.findRev? (·.1 == l) with
    | some (_, o) => pure o
    | none => Place.bad s!"undefined label {l}"
  | d => match d.nat? with
    | some n => pure n
    | none => Place.bad "bad offset"

/-- The answer of loop compilation. -/
def compileLoop (req : Doc) : Decode Doc := do
  let code ← codeAt req "code"
  let header ← Spec.need req "header"
  let backEdge ← Spec.need req "back_edge"
  let entryDepth ← Spec.opt req "entry_depth" 0 Spec.natural
  let fast ← flag req "fast_paths" true
  let (m, sc) := fresh {} true
  pure (answer (do
    let (a, labels) ← Place.code sc Spec.depth code
    let h ← offsetOf labels header
    let b ← offsetOf labels backEdge
    let u ← match (← Place.heap).get? a with
      | some (.code c) => pure c.unit
      | _ => Place.bad "not a code unit"
    match CompiledLoop.compile u h b entryDepth fast with
    | .ok c => pure (ok (.record [("header", .nat c.header), ("entry_depth", .nat c.entryDepth)]))
    | .error (.unsupportedOpcode op) =>
      pure (.record [("rejected", .str "UnsupportedOpcode"), ("opcode", .str op.name)])
    | .error .noPrimitiveFastPaths => pure (.record [("rejected", .str "NoPrimitiveFastPaths")])
    | .error .malformed => pure (.record [("rejected", .str "Malformed")])) m).1

/-- The answer of the builder operation. -/
def buildUnit (req : Doc) : Decode Doc := do
  let code ← codeAt req "code"
  let (m, sc) := fresh {} true
  pure (answer (do
    let (a, labels) ← Place.code sc Spec.depth code
    let h ← Place.heap
    match h.get? a with
    | some (.code c) => pure (ok (Encode.codeUnit h c.unit labels))
    | _ => Place.bad "not a code unit") m).1

/-- The answer of the handler-table operation. -/
def triples (req : Doc) : Decode Doc := do
  let words ← (← Spec.array (← Spec.need req "words")).mapM Spec.natural
  let finds ← Spec.opt req "find" #[] fun f => do (← Spec.array f).mapM Spec.natural
  match HandlerTable.ofTriples words with
  | .error e => pure (Encode.codeError e)
  | .ok t =>
    pure (ok (.record [("ranges", .list (t.toList.map Encode.range)),
      ("find", .list (finds.toList.map fun o => match t.find o with
        | some r => Encode.range r
        | none => .null))]))

/-- The answer of the settings operation. -/
def configEnv (req : Doc) : Decode Doc := do
  let base ← match req.field? "base" with
    | some b => do pure (← config (.record [("config", b)])).1
    | none => pure {}
  let env ← (Spec.opt req "env" #[] fun e => (sortedFields e).mapM fun (k, v) => do
    pure (k, ← Spec.text v))
  let c := base.withEnv fun k => (env.find? (·.1 == k)).map (·.2)
  pure (ok (.record [("max_recursion_depth", .nat c.maxDepth),
    ("osr_threshold", match c.osrThreshold with
      | some n => .nat n
      | none => .null),
    ("specialize", .bool c.specialize)]))

/-- The class named by a document. -/
def excTypeOf (d : Doc) : Decode ExcType := Spec.excType d

/-- Answers a single operation. -/
def single (op : String) (req : Doc) : Decode Doc :=
  match op with
  | "binary" => do
    let o ← operator req BinaryOp.ofName?
    onValues req ["lhs", "rhs"] fun vs => do okValue (← Place.vm (Ops.binary o (nth vs 0) (nth vs 1)))
  | "unary" => do
    let o ← operator req UnaryOp.ofName?
    onValues req ["operand"] fun vs => do okValue (← Place.vm (Ops.unary o (nth vs 0)))
  | "compare" => do
    let o ← operator req CompareOp.ofName?
    onValues req ["lhs", "rhs"] fun vs => do
      let r ← Place.vm (Vm.ofExcept ((← Place.heap).compareValues o (nth vs 0) (nth vs 1)))
      pure (ok (.bool r))
  | "contains" => onValues req ["container", "needle"] fun vs => do
      let r ← Place.vm (Vm.ofExcept ((← Place.heap).containsValue (nth vs 0) (nth vs 1)))
      pure (ok (.bool r))
  | "truthy" => onValues req ["value"] fun vs => do
      pure (ok (.bool ((← Place.heap).truthy (nth vs 0))))
  | "len" => onValues req ["value"] fun vs => do
      let n ← Place.vm (Vm.ofExcept (Ops.len (← Place.heap) (nth vs 0)))
      pure (ok (.nat n))
  | "get_item" => onValues req ["obj", "key"] fun vs => do
      okValue (← Place.vm (Ops.getItem (nth vs 0) (nth vs 1)))
  | "set_item" => onValues req ["obj", "key", "value"] fun vs => do
      Place.vm (Ops.setItem (nth vs 0) (nth vs 1) (nth vs 2))
      okValue (nth vs 0)
  | "del_item" => onValues req ["obj", "key"] fun vs => do
      Place.vm (Ops.delItem (nth vs 0) (nth vs 1))
      okValue (nth vs 0)
  | "get_attr" => do
    let name ← Spec.text (← Spec.need req "name")
    onValues req ["obj"] fun vs => do okValue (← Place.vm (Ops.getAttr (nth vs 0) name))
  | "iter" => onValues req ["value"] fun vs => do okItems (← Place.vm (Vm.drainAll (nth vs 0)))
  | "repr" => onValues req ["value"] fun vs => do
      pure (ok (.str ((← Place.heap).repr (nth vs 0))))
  | "type_name" => onValues req ["value"] fun vs => do
      pure (ok (.str ((← Place.heap).typeName (nth vs 0))))
  | "eq" => onValues req ["lhs", "rhs"] fun vs => do
      pure (ok (.bool ((← Place.heap).eq (nth vs 0) (nth vs 1))))
  | "is" => do
    let same ← flag req "same" false
    if same then
      onValues req ["lhs"] fun vs => pure (ok (.bool ((nth vs 0).same (nth vs 0))))
    else onValues req ["lhs", "rhs"] fun vs => pure (ok (.bool ((nth vs 0).same (nth vs 1))))
  | "hashable" => onValues req ["value"] fun vs => do
      pure (ok (.bool (((← Place.heap).checkHashable (nth vs 0)).toBool)))
  | "exc_subclass" => do
    let sub ← excTypeOf (← Spec.need req "sub")
    let sups ← (← Spec.array (← Spec.need req "sups")).mapM excTypeOf
    pure (ok (.arr (sups.map fun t => .bool (sub.isSubclassOf t))))
  | "config_env" => configEnv req
  | "loop_info" => do
    let threshold ← Spec.natural (← Spec.need req "threshold")
    let events ← Spec.texts (← Spec.need req "events")
    loopEvents threshold events
  | "osr_compile" => compileLoop req
  | "build" => buildUnit req
  | "triples" => triples req
  | other => .error s!"unknown op {other}"

/-- Registers modules described as objects of attribute values. -/
def registerModules (sc : Scope) (d : Doc) : Place Unit := do
  for (name, attrsDoc) in sortedFields d do
    let mut attrs : Array (String × Value) := #[]
    for (k, vd) in sortedFields attrsDoc do
      let spec ← match Spec.value Spec.depth vd with
        | .ok s => pure s
        | .error e => Place.bad e
      attrs := assocSet attrs k (← placeOne sc spec)
    let a ← Place.vm (Vm.alloc (.module { name, attrs }))
    modify fun m => { m with modules := (m.modules.filter (·.1 != name)).push (name, a) }

/-- Binds names in a namespace, described as an object of values. -/
def bindGlobals (sc : Scope) (d : Doc) : Place Unit := do
  for (name, vd) in sortedFields d do
    let spec ← match Spec.value Spec.depth vd with
      | .ok s => pure s
      | .error e => Place.bad e
    let v ← placeOne sc spec
    Place.vm (Vm.modifyObj sc.globals (Obj.mapGlobals (·.set name v)))

/-- The cells of closure values. -/
def cellsOf (vs : Array Value) : Place (Array Addr) := vs.mapM Place.cellAddr

/-- The answer of the program operation. -/
def run (req : Doc) : Decode Doc := do
  let code ← codeAt req "code"
  let args ← valuesAt req "args"
  let closure ← valuesAt req "closure"
  let (cfg, fast) ← config req
  let withStats ← flag req "stats" false
  let (m, sc) := fresh cfg fast
  let prepared : Place (Addr × Array Value × Array Addr) := do
    let (a, _) ← Place.code sc Spec.depth code
    registerModules sc ((req.field? "modules").getD (.obj #[]))
    bindGlobals sc ((req.field? "globals").getD (.obj #[]))
    let args ← place sc args
    let cells ← cellsOf (← place sc closure)
    pure (a, args, cells)
  match prepared m with
  | .error e m => pure (failure m.heap e)
  | .ok (a, args, cells) m =>
    let (d, m) := answer (do okValue (← Place.vm (Vm.invoke a sc.globals args cells))) m
    if withStats then
      pure (.obj (d.fields.push ("stats", Encode.stats m.stats)))
    else pure d

/-- A session: its scope and the machine it runs on. -/
structure Session where
  machine : Machine
  scope : Scope

/-- The generator a value is. -/
def generatorAddr (v : Value) : Place Addr := do
  match v, (← Place.heap).deref v with
  | .ref a, some (.generator _) => pure a
  | _, _ => Place.bad "not a generator"

/-- Answers one session step, with the value it keeps, if any. -/
def sessionStep (sc : Scope) (step : Doc) : Decode (Place (Doc × Option Value)) := do
  let valued (x : Place Value) : Place (Doc × Option Value) := do
    let v ← x
    pure (← okValue v, some v)
  let plain (x : Place Doc) : Place (Doc × Option Value) := do pure (← x, none)
  let optValue (k : String) : Decode ValueSpec := do
    match step.field? k with
    | some d => Spec.value Spec.depth d
    | none => pure .none
  if let some c := step.field? "invoke" then
    let code ← Spec.code Spec.depth c
    let args ← valuesAt step "args"
    let closure ← valuesAt step "closure"
    let freshGlobals ← match step.field? "globals" with
      | some (.str "fresh") => pure true
      | some _ => throw "globals is \"fresh\" or absent"
      | none => pure false
    return valued do
      let (a, _) ← Place.code sc Spec.depth code
      let args ← place sc args
      let cells ← cellsOf (← place sc closure)
      let g ← if freshGlobals then Place.vm (Vm.alloc (.globals {})) else pure sc.globals
      Place.vm (Vm.invoke a g args cells)
  if let some c := step.field? "call" then
    let callee ← Spec.value Spec.depth c
    let args ← valuesAt step "args"
    return valued do
      let f ← placeOne sc callee
      let args ← place sc args
      Place.vm (Vm.call f args)
  if let some g := step.field? "send" then
    let gen ← Spec.value Spec.depth g
    let v ← optValue "value"
    return valued do
      let a ← generatorAddr (← placeOne sc gen)
      Place.vm (Vm.send a (← placeOne sc v))
  if let some g := step.field? "resume" then
    let gen ← Spec.value Spec.depth g
    let v ← optValue "value"
    return plain do
      let a ← generatorAddr (← placeOne sc gen)
      let r ← Place.vm (Vm.resume a (← placeOne sc v))
      let h ← Place.heap
      pure (match r with
        | .yielded x => .record [("yielded", Encode.ofValue h x)]
        | .returned x => .record [("returned", Encode.ofValue h x)])
  if let some g := step.field? "throw" then
    let gen ← Spec.value Spec.depth g
    let v ← valueAt step "value"
    return valued do
      let a ← generatorAddr (← placeOne sc gen)
      Place.vm (Vm.throwInto a (← placeOne sc v))
  if let some g := step.field? "close" then
    let gen ← Spec.value Spec.depth g
    return plain do
      let a ← generatorAddr (← placeOne sc gen)
      Place.vm (Vm.close a)
      pure (ok .null)
  if let some d := step.field? "next" then
    let it ← Spec.value Spec.depth d
    return do
      let r ← Place.vm (Vm.advance (← placeOne sc it))
      match r with
      | some v => pure (← okValue v, some v)
      | none => pure (.record [("exhausted", .bool true)], none)
  if let some d := step.field? "iterate" then
    let it ← Spec.value Spec.depth d
    return plain do okItems (← Place.vm (Vm.drainAll (← placeOne sc it)))
  if let some n := step.field? "set_global" then
    let name ← Spec.text n
    let v ← valueAt step "value"
    return plain do
      let x ← placeOne sc v
      Place.vm (Vm.modifyObj sc.globals (Obj.mapGlobals (·.set name x)))
      pure (ok .null)
  if let some n := step.field? "del_global" then
    let name ← Spec.text n
    return plain do
      let g ← globalsOf sc
      let (g, removed) := g.remove name
      Place.vm (Vm.modifyObj sc.globals (Obj.mapGlobals fun _ => g))
      pure (ok (.bool removed.isSome))
  if let some n := step.field? "get_global" then
    let name ← Spec.text n
    return do
      match (← globalsOf sc).get? name with
      | some v => pure (← okValue v, some v)
      | none => pure (.record [("missing", .bool true)], none)
  if (step.field? "stats").isSome then
    return plain do
      let m ← get
      pure (.record [("stats", Encode.stats m.stats)])
  if let some g := step.field? "state" then
    let gen ← Spec.value Spec.depth g
    return plain do
      let a ← generatorAddr (← placeOne sc gen)
      match (← Place.heap).get? a with
      | some (.generator st) => pure (.record [("state", Encode.generatorState st)])
      | _ => Place.bad "not a generator"
  if let some d := step.field? "eval" then
    let v ← Spec.value Spec.depth d
    return valued (placeOne sc v)
  if let some n := step.field? "let" then
    let _ ← Spec.text n
    let v ← valueAt step "value"
    return do
      let x ← placeOne sc v
      pure (ok .null, some x)
  throw "unknown step"
where
  /-- The session's namespace. -/
  globalsOf (sc : Scope) : Place Globals := do
    match (← Place.heap).get? sc.globals with
    | some (.globals g) => pure g
    | _ => Place.bad "no namespace"

/-- The variable a step keeps its result under. -/
def keptAs (step : Doc) : Option String :=
  match step.field? "let" with
  | some (.str n) => some n
  | _ => match step.field? "save" with
    | some (.str n) => some n
    | _ => none

/-- The answer of the session operation. -/
def session (req : Doc) : Decode Doc := do
  let (cfg, fast) ← config req
  let steps ← Spec.array (← Spec.need req "steps")
  let codeSpecs ← (sortedFields ((req.field? "codes").getD (.obj #[]))).mapM fun (n, d) => do
    pure (n, ← Spec.code Spec.depth d)
  let (m, sc) := fresh cfg fast
  let setup : Place Scope := do
    let mut sc := sc
    for (n, c) in codeSpecs do
      let (a, _) ← Place.code sc Spec.depth c
      sc := { sc with codes := sc.codes.push (n, a) }
    registerModules sc ((req.field? "modules").getD (.obj #[]))
    bindGlobals sc ((req.field? "globals").getD (.obj #[]))
    pure sc
  match setup m with
  | .error e m => pure (failure m.heap e)
  | .ok sc m =>
    let mut m := m
    let mut sc := sc
    let mut answers : Array Doc := #[]
    for step in steps do
      let x ← sessionStep sc step
      match x m with
      | .ok (d, kept) m' =>
        m := m'
        answers := answers.push d
        if let some n := keptAs step then
          if let some v := kept then sc := { sc with vars := sc.vars.push (n, v) }
      | .error (.badInput msg) _ => throw msg
      | .error e m' =>
        m := m'
        answers := answers.push (failure m'.heap e)
    pure (.record [("steps", .arr answers)])

/-- Answers a request. -/
def handle (req : Doc) : Doc :=
  let decoded : Decode Doc := do
    let op ← Spec.text (← Spec.need req "op")
    match op with
    | "run" => run req
    | "session" => session req
    | other => single other req
  match decoded with
  | .ok d => d
  | .error msg => Encode.badInput msg

/-- The answer line to a request line; a line that is not one JSON value is a request that
cannot be read. -/
def answerLine (line : String) : String :=
  Json.write (match Json.read line with
    | .ok req => handle req
    | .error msg => Encode.badInput msg)

end Serve

end StackVm
