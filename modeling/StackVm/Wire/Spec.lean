import StackVm.Wire.Doc
import StackVm.Code.Assembly
import StackVm.Text.Read

/-! Requests describe values and code units as trees, which are placed in the store only when
a request runs.  A value description is a plain document value (null, a boolean, an integer, a
string, an array for a list) or an object with one tag naming its kind.  A code unit is an
assembly listing, a raw unit given pool by pool, or the name of a unit defined earlier in a
session. -/

namespace StackVm

/-- The handler table of a raw unit: ranges, or the three-word encoding. -/
inductive RawHandlers where
  | ranges (rs : Array HandlerRange)
  | triples (words : Array Nat)
  deriving Inhabited

/-- A raw unit without its constants. -/
structure RawHeader where
  name : String := "f"
  bytecode : ByteArray := ByteArray.empty
  ints : Array Int := #[]
  floats : Array Float := #[]
  bigInts : Array Int := #[]
  strings : Array String := #[]
  bytes : Array ByteArray := #[]
  names : Array String := #[]
  localNames : Array String := #[]
  cellNames : Array String := #[]
  freeNames : Array String := #[]
  argCount : Nat := 0
  flags : CodeFlags := CodeFlags.empty
  stackSize : Nat := 0
  handlers : RawHandlers := .ranges #[]
  cellArgs : Array (Nat × Nat) := #[]
  lines : Array (Nat × Nat) := #[]
  firstLine : Nat := 0
  deriving Inhabited

mutual

/-- The description of a value. -/
inductive ValueSpec where
  | none
  | bool (b : Bool)
  | int (i : Int)
  | float (f : Float)
  | str (s : String)
  | bytes (b : ByteArray)
  | list (items : List ValueSpec)
  | tuple (items : List ValueSpec)
  | set (items : List ValueSpec)
  | dict (entries : List (ValueSpec × ValueSpec))
  | excType (t : ExcType)
  | exception (t : ExcType) (message : Option String) (payload : Option ValueSpec)
  | var (name : String)
  | code (c : CodeSpec)
  | cell (v : Option ValueSpec)
  | function (code : CodeSpec) (defaults : List ValueSpec) (closure : List ValueSpec)
  | object (type : String) (shape : Option Nat) (attrs : List (String × ValueSpec))
      (names : List String)

/-- The description of a code unit. -/
inductive CodeSpec where
  /-- A unit defined earlier by name. -/
  | named (name : String)
  /-- An assembly listing whose instructions may hold values and code units. -/
  | listing (header : Listing) (code : List InstrSpec)
  /-- A raw unit. -/
  | raw (header : RawHeader) (constants : List ValueSpec)

/-- An assembly line whose operand may still be a description. -/
inductive InstrSpec where
  | plain (a : Asm)
  | loadConst (v : ValueSpec)
  | makeFunction (code : CodeSpec) (flags : Nat)
  | makeFunctionAt (index : Nat) (flags : Nat)

end

instance : Inhabited ValueSpec := ⟨.none⟩
instance : Inhabited CodeSpec := ⟨.named ""⟩

namespace Spec

/-- A decoding result: the value, or what is wrong with the input. -/
abbrev Decode := Except String

/-- A required field. -/
def need (d : Doc) (k : String) : Decode Doc :=
  match d.field? k with
  | some v => .ok v
  | none => .error s!"missing field {k}"

/-- A string. -/
def text (d : Doc) : Decode String :=
  match d.str? with
  | some s => .ok s
  | none => .error "expected a string"

/-- An integer. -/
def integer (d : Doc) : Decode Int :=
  match d.int? with
  | some i => .ok i
  | none => .error "expected an integer"

/-- A natural number. -/
def natural (d : Doc) : Decode Nat :=
  match d.nat? with
  | some n => .ok n
  | none => .error "expected a natural number"

/-- An array. -/
def array (d : Doc) : Decode (Array Doc) :=
  match d.items? with
  | some xs => .ok xs
  | none => .error "expected an array"

/-- An optional field decoded, or a default. -/
def opt {α : Type} (d : Doc) (k : String) (dflt : α) (f : Doc → Decode α) : Decode α :=
  match d.field? k with
  | some v => f v
  | none => .ok dflt

/-- An array of strings. -/
def texts (d : Doc) : Decode (Array String) := do (← array d).mapM text

/-- A double given as a number or as text; an integer stands for the double nearest to it. -/
def float (d : Doc) : Decode Float :=
  match d with
  | .int i => .ok (Binary64.ofInt i)
  | .float f => .ok f
  | .str s => match Read.float? s with
    | some f => .ok f
    | none => .error s!"bad float {s}"
  | _ => .error "expected a float"

/-- A decimal integer given as text. -/
def bigText (d : Doc) : Decode Int := do
  match Read.integer? (← text d) with
  | some i => pure i
  | none => .error "bad integer text"

/-- Bytes given as hex text. -/
def hex (d : Doc) : Decode ByteArray := do
  match Read.hex? (← text d) with
  | some b => pure b
  | none => .error "bad hex"

/-- An exception class by name. -/
def excType (d : Doc) : Decode ExcType := do
  let s ← text d
  match ExcType.ofName? s with
  | some t => pure t
  | none => .error s!"unknown exception type {s}"

/-- A flag list. -/
def flags (d : Doc) : Decode CodeFlags := do
  let names ← texts d
  names.foldlM (fun acc n =>
    match CodeFlags.ofName? n with
    | some f => .ok (acc.union f)
    | none => .error s!"unknown flag {n}") CodeFlags.empty

/-- An integer in a document as a value: an integer when it fits in 64 bits (signed, or
unsigned above), the nearest double otherwise. -/
def number (i : Int) : ValueSpec :=
  if -Int.pow 2 63 ≤ i ∧ i < Int.pow 2 64 then .int i else .float (Binary64.ofInt i)

/-- A jump target. -/
def jumpRef (d : Doc) : Decode JumpRef :=
  match d with
  | .str l => .ok (.label l)
  | .int m => .ok (.raw m)
  | _ => .error "bad jump target"

/-- A handler range end. -/
def position (d : Doc) : Decode Position :=
  match d with
  | .str l => .ok (.label l)
  | .int m => if m ≥ 0 then .ok (.raw m.toNat) else .error "bad position"
  | _ => .error "bad position"

/-- A handler range of a listing. -/
def asmHandler (d : Doc) : Decode AsmHandler := do
  let xs ← array d
  match xs.toList with
  | [s, e, h, depth] => pure ⟨← position s, ← position e, ← position h, ← natural depth⟩
  | _ => .error "bad handler"

/-- A byte of raw bytecode: a number or an opcode name. -/
def rawByte (d : Doc) : Decode UInt8 :=
  match d with
  | .str s => match Opcode.ofName? s with
    | some op => .ok op.byte.toUInt8
    | none => .error s!"unknown opcode {s}"
  | .int m => .ok (m % 256).toNat.toUInt8
  | _ => .error "bad byte"

/-- A pair of natural numbers. -/
def natPair (d : Doc) : Decode (Nat × Nat) := do
  match (← array d).toList with
  | [a, b] => pure (← natural a, ← natural b)
  | _ => .error "expected a pair"

/-- A handler range of a raw unit. -/
def rawRange (d : Doc) : Decode HandlerRange := do
  match (← array d).toList with
  | [s, e, h, depth] => pure ⟨← natural s, ← natural e, ← natural h, ← natural depth⟩
  | _ => .error "bad handler"

/-- The header of a raw unit. -/
def rawHeader (d : Doc) : Decode RawHeader := do
  let handlers ← match d.field? "triples", d.field? "handlers" with
    | some t, _ => do pure (RawHandlers.triples (← (← array t).mapM natural))
    | none, some h => do pure (RawHandlers.ranges (← (← array h).mapM rawRange))
    | none, none => pure (RawHandlers.ranges #[])
  pure {
    name := ← opt d "name" "f" text
    bytecode := ⟨← opt d "bytecode" #[] fun b => do (← array b).mapM rawByte⟩
    ints := ← opt d "ints" #[] fun b => do (← array b).mapM integer
    floats := ← opt d "floats" #[] fun b => do (← array b).mapM float
    bigInts := ← opt d "big_ints" #[] fun b => do (← array b).mapM bigText
    strings := ← opt d "strings" #[] texts
    bytes := ← opt d "bytes" #[] fun b => do (← array b).mapM hex
    names := ← opt d "names" #[] texts
    localNames := ← opt d "local_names" #[] texts
    cellNames := ← opt d "cell_names" #[] texts
    freeNames := ← opt d "free_names" #[] texts
    argCount := ← opt d "arg_count" 0 natural
    flags := ← opt d "flags" CodeFlags.empty flags
    stackSize := ← opt d "stack_size" 0 natural
    handlers
    cellArgs := ← opt d "cell_args" #[] fun b => do (← array b).mapM natPair
    lines := ← opt d "lines" #[] fun b => do (← array b).mapM natPair
    firstLine := ← opt d "first_line" 0 natural }

/-- The declarations of a listing. -/
def listingHeader (d : Doc) : Decode Listing := do
  pure {
    name := ← opt d "name" "f" text
    flags := (← opt d "flags" #[] fun f => do
      let fl ← flags f
      pure #[fl]).toList
    params := (← opt d "params" #[] texts).toList
    varargs := ← opt d "varargs" none fun v => some <$> text v
    locals := (← opt d "locals" #[] texts).toList
    cells := (← opt d "cells" #[] texts).toList
    freeVars := (← opt d "freevars" #[] texts).toList
    handlers := (← opt d "handlers" #[] fun h => do (← array h).mapM asmHandler).toList }

/-- The operand of an opcode that takes a plain operand. -/
def plainInstr (op : Opcode) (args : List Doc) : Decode Asm := do
  let one : Decode Doc := match args with
    | [a] => .ok a
    | _ => .error s!"{op.name} takes one operand"
  match op with
  | .loadSmallInt => return .instr op (.byte (← integer (← one)))
  | .loadInt => return .instr op (.int (← integer (← one)))
  | .loadFloat => return .instr op (.float (← float (← one)))
  | .loadBigInt => return .instr op (.bigInt (← bigText (← one)))
  | .loadStr => return .instr op (.str (← text (← one)))
  | .loadBytes => return .instr op (.bytes (← hex (← one)))
  | .loadGlobal | .storeGlobal | .deleteGlobal | .loadName | .storeName | .deleteName
  | .loadAttr | .storeAttr | .deleteAttr | .importName | .importFrom =>
    return .instr op (.name (← text (← one)))
  | .callMethod =>
    match args with
    | [n, c] => return .instr op (.method (← text n) (← natural c))
    | _ => .error "CallMethod takes a name and a count"
  | .jumpBackward => return .instr op (.jump (← jumpRef (← one)))
  | op =>
    if op.isRelativeJump then return .instr op (.jump (← jumpRef (← one)))
    else match op.operandLen, args with
      | 0, [] => pure (.instr op .none)
      | 1, [a] => return .instr op (.byte (← integer a))
      | 2, [a] => return .instr op (.word (← integer a))
      | _, _ => .error s!"bad operands for {op.name}"

/-- The depth budget of nested descriptions. -/
def depth : Nat := 10000

mutual

/-- Decodes a value description. -/
def value : Nat → Doc → Decode ValueSpec
  | 0, _ => .error "too deep"
  | fuel + 1, d =>
    match d with
    | .null => .ok .none
    | .bool b => .ok (.bool b)
    | .int i => .ok (number i)
    | .float f => .ok (.float f)
    | .str s => .ok (.str s)
    | .arr xs => .list <$> values fuel xs.toList
    | .obj fs =>
      match fs.toList with
      | [(tag, body)] => tagged fuel tag body
      | _ => .error "a value object has exactly one key"

/-- Decodes a list of value descriptions. -/
def values : Nat → List Doc → Decode (List ValueSpec)
  | 0, _ => .error "too deep"
  | fuel + 1, ds => ds.mapM (value fuel)

/-- Decodes key and value pairs. -/
def pairs : Nat → List Doc → Decode (List (ValueSpec × ValueSpec))
  | 0, _ => .error "too deep"
  | fuel + 1, ds => ds.mapM fun d =>
    match d with
    | .arr kv => match kv.toList with
      | [k, v] => do pure (← value fuel k, ← value fuel v)
      | _ => .error "a dict entry is a pair"
    | _ => .error "a dict entry is a pair"

/-- Decodes named attribute values. -/
def attrs : Nat → List Doc → Decode (List (String × ValueSpec))
  | 0, _ => .error "too deep"
  | fuel + 1, ds => ds.mapM fun d =>
    match d with
    | .arr kv => match kv.toList with
      | [k, v] => do pure (← text k, ← value fuel v)
      | _ => .error "an attribute is a pair"
    | _ => .error "an attribute is a pair"

/-- Decodes a tagged value description. -/
def tagged : Nat → String → Doc → Decode ValueSpec
  | 0, _, _ => .error "too deep"
  | fuel + 1, tag, body =>
    match tag with
    | "int" => .int <$> bigText body
    | "float" => .float <$> float body
    | "str" => .str <$> text body
    | "bytes" => .bytes <$> hex body
    | "list" => do .list <$> values fuel (← array body).toList
    | "tuple" => do .tuple <$> values fuel (← array body).toList
    | "set" => do .set <$> values fuel (← array body).toList
    | "dict" => do .dict <$> pairs fuel (← array body).toList
    | "exctype" => .excType <$> excType body
    | "exception" => do
      let t ← excType (← need body "type")
      let message ← match body.field? "message" with
        | some .null | none => pure none
        | some m => some <$> text m
      let payload ← match body.field? "payload" with
        | some p => some <$> value fuel p
        | none => pure none
      pure (.exception t message payload)
    | "var" => .var <$> text body
    | "code" => .code <$> code fuel body
    | "cell" => do
      match (← array body).toList with
      | [] => pure (.cell none)
      | [v] => return .cell (some (← value fuel v))
      | _ => .error "a cell holds at most one value"
    | "function" => do
      let c ← code fuel (← need body "code")
      let defaults ← match body.field? "defaults" with
        | some ds => do values fuel (← array ds).toList
        | none => pure []
      let closure ← match body.field? "closure" with
        | some cs => do values fuel (← array cs).toList
        | none => pure []
      pure (.function c defaults closure)
    | "object" => do
      let type ← opt body "type" "Obj" text
      let shape ← match body.field? "shape" with
        | some .null | none => pure none
        | some s => some <$> natural s
      let as ← match body.field? "attrs" with
        | some a => do attrs fuel (← array a).toList
        | none => pure []
      let names ← opt body "names" #[] texts
      pure (.object type shape as names.toList)
    | t => .error s!"unknown value tag {t}"

/-- Decodes a code unit description. -/
def code : Nat → Doc → Decode CodeSpec
  | 0, _ => .error "too deep"
  | fuel + 1, d =>
    match d with
    | .str n => .ok (.named n)
    | _ =>
      match d.field? "raw" with
      | some r => do
        let h ← rawHeader r
        let cs ← match r.field? "constants" with
          | some c => do values fuel (← array c).toList
          | none => pure []
        pure (.raw h cs)
      | none => do
        let h ← listingHeader d
        let lines ← match d.field? "code" with
          | some c => do instrs fuel (← array c).toList
          | none => pure []
        pure (.listing h lines)

/-- Decodes assembly lines. -/
def instrs : Nat → List Doc → Decode (List InstrSpec)
  | 0, _ => .error "too deep"
  | fuel + 1, ds => ds.mapM (instr fuel)

/-- Decodes one assembly line. -/
def instr : Nat → Doc → Decode InstrSpec
  | 0, _ => .error "too deep"
  | fuel + 1, d => do
    match (← array d).toList with
    | .str head :: args =>
      match head, args with
      | "label", [l] => return .plain (.label (← text l))
      | "depth", [n] => return .plain (.depth (← natural n))
      | "line", [n] => return .plain (.line (← natural n))
      | "int", [n] => return .plain (.loadInt (← integer n))
      | "return_none", [] => pure (.plain .returnNone)
      | name, _ =>
        match Opcode.ofName? name with
        | some .loadConst =>
          match args with
          | [v] => .loadConst <$> value fuel v
          | _ => .error "LoadConst takes one value"
        | some .makeFunction =>
          match args with
          | [.int i, f] => return .makeFunctionAt i.toNat (← natural f)
          | [c, f] => return .makeFunction (← code fuel c) (← natural f)
          | _ => .error "MakeFunction takes a code unit and flags"
        | some op => .plain <$> plainInstr op args
        | none => .error s!"unknown instruction {name}"
    | _ => .error "an instruction starts with its name"

end

end Spec

end StackVm
