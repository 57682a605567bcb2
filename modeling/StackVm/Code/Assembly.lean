import StackVm.Code.Builder

/-! Assembly: code units written as a list of instructions with symbolic labels.  A label binds
a name to the offset where it stands.  A jump to a label bound earlier is emitted with its
final distance; a jump to a label bound later is emitted with a placeholder that is patched
when the label appears.  Besides the instructions, an assembly listing can declare the stack
depth at the next instruction (after a jump, or at a handler) and the source line of the
instructions that follow, and it lists handler ranges whose ends may be labels.

Operands are already values: constants and code units are placed in the store before the
listing is assembled. -/

namespace StackVm

/-- A jump target: a label, or a distance written out. -/
inductive JumpRef where
  | label (name : String)
  | raw (n : Int)
  deriving Inhabited

/-- A handler range end: a label, or an offset written out. -/
inductive Position where
  | label (name : String)
  | raw (n : Nat)
  deriving Inhabited

/-- The operand of an assembly instruction. -/
inductive Operand where
  | none
  | byte (n : Int)
  | word (n : Int)
  | const (v : Value)
  | int (n : Int)
  | float (f : Float)
  | bigInt (n : Int)
  | str (s : String)
  | bytes (b : ByteArray)
  | name (s : String)
  | method (name : String) (argc : Nat)
  | function (code : Value) (flags : Nat)
  | constIndex (index : Nat) (flags : Nat)
  | jump (target : JumpRef)
  deriving Inhabited

/-- One line of an assembly listing. -/
inductive Asm where
  | label (name : String)
  | depth (n : Nat)
  | line (n : Nat)
  | loadInt (n : Int)
  | returnNone
  | instr (op : Opcode) (arg : Operand)
  deriving Inhabited

/-- A handler range of a listing. -/
structure AsmHandler where
  start : Position
  stop : Position
  handler : Position
  depth : Nat
  deriving Inhabited

/-- A whole listing: the unit's declarations, its instructions and its handlers. -/
structure Listing where
  name : String := "f"
  flags : List CodeFlags := []
  params : List String := []
  varargs : Option String := none
  locals : List String := []
  cells : List String := []
  freeVars : List String := []
  code : List Asm := []
  handlers : List AsmHandler := []
  deriving Inhabited

/-- Why a listing cannot be assembled. -/
inductive AsmError where
  /-- The unit is rejected. -/
  | code (e : CodeError)
  /-- A label is used but never bound. -/
  | undefinedLabel (name : String)
  deriving Inhabited

/-- The assembler's state: the builder, the bound labels and the jumps waiting for a label. -/
structure Assembler where
  builder : Builder
  labels : Array (String × Nat) := #[]
  pending : Array (String × Nat) := #[]
  /-- Labels a backward jump named before they were bound. -/
  unbound : Array String := #[]
  deriving Inhabited

namespace Assembler

/-- The offset a label is bound to. -/
def lookup (a : Assembler) (l : String) : Option Nat :=
  (a.labels.findRev? (·.1 == l)).map (·.2)

/-- Binds a label here and patches the jumps waiting for it. -/
def bind (a : Assembler) (l : String) : Assembler :=
  let here := a.builder.offset
  let waiting := a.pending.filter (·.1 == l)
  let builder := waiting.foldl (fun b (_, at_) => b.patchJump at_) a.builder
  { builder, labels := a.labels.push (l, here), pending := a.pending.filter (·.1 != l) }

/-- The builder after emitting a two-byte pool operand. -/
def pooled (a : Assembler) (op : Opcode) (r : Builder × Nat) : Assembler :=
  { a with builder := r.1.emitU16 op r.2 }

/-- Emits one instruction. -/
def instr (a : Assembler) (op : Opcode) : Operand → Assembler
  | .none => { a with builder := a.builder.emit op }
  | .byte n => if op == .loadSmallInt then { a with builder := a.builder.emitI8 op n }
    else { a with builder := a.builder.emitU8 op (n % 256).toNat }
  | .word n => { a with builder := a.builder.emitU16 op (n % 65536).toNat }
  | .const v => a.pooled op (a.builder.addConst v)
  | .int n => a.pooled op (a.builder.addInt n)
  | .float f => a.pooled op (a.builder.addFloat f)
  | .bigInt n => a.pooled op (a.builder.addBigInt n)
  | .str s => a.pooled op (a.builder.addStr s)
  | .bytes b => a.pooled op (a.builder.addBytes b)
  | .name s => a.pooled op (a.builder.addName s)
  | .method n argc =>
    let (b, i) := a.builder.addName n
    { a with builder := b.emitU16U8 op i argc }
  | .function code flags =>
    let (b, i) := a.builder.addConst code
    { a with builder := b.emitU16U8 op i flags }
  | .constIndex i flags => { a with builder := a.builder.emitU16U8 op i flags }
  | .jump (.raw n) => { a with builder := a.builder.emitU16 op (n % 65536).toNat }
  | .jump (.label l) =>
    if op == .jumpBackward then
      match a.lookup l with
      | some t => { a with builder := a.builder.emitJumpBack t }
      | none => { a with unbound := a.unbound.push l }
    else
      match a.lookup l with
      | some t =>
        let start := a.builder.offset
        { a with builder := a.builder.emitU16 op (((t : Int) - (start + 3)) % 65536).toNat }
      | none =>
        let (b, at_) := a.builder.emitJump op
        { a with builder := b, pending := a.pending.push (l, at_) }

/-- Assembles one line. -/
def step (a : Assembler) : Asm → Assembler
  | .label l => a.bind l
  | .depth n => { a with builder := a.builder.setStackDepth n }
  | .line n => { a with builder := a.builder.setLocation n }
  | .loadInt n => { a with builder := a.builder.emitLoadInt n }
  | .returnNone => { a with builder := a.builder.emit .returnNone }
  | .instr op arg => a.instr op arg

/-- The offset of a handler range end. -/
def position (a : Assembler) : Position → Except AsmError Nat
  | .raw n => .ok n
  | .label l => match a.lookup l with
    | some t => .ok t
    | none => .error (.undefinedLabel l)

end Assembler

/-- The builder with a listing's declarations made. -/
def Listing.declare (p : Listing) : Builder :=
  let b := p.flags.foldl Builder.setFlags (Builder.new p.name)
  let b := p.params.foldl (fun b n => (b.addParam n).1) b
  let b := match p.varargs with
    | some v => (b.addVarargs v).1
    | none => b
  let b := p.locals.foldl (fun b n => (b.addLocal n).1) b
  let b := p.cells.foldl (fun b n => (b.addCellVar n).1) b
  p.freeVars.foldl (fun b n => (b.addFreeVar n).1) b

/-- Assembles a listing into a checked unit and the offsets of its labels. -/
def Listing.assemble (p : Listing) (isCode : Value → Bool) :
    Except AsmError (CodeUnit × Array (String × Nat)) := do
  let a := p.code.foldl Assembler.step { builder := p.declare }
  if let some l := a.unbound[0]? then throw (.undefinedLabel l)
  if let some (l, _) := a.pending[0]? then throw (.undefinedLabel l)
  let mut b := a.builder
  for h in p.handlers do
    let s ← a.position h.start
    let e ← a.position h.stop
    let t ← a.position h.handler
    b := b.addHandler ⟨s, e, t, h.depth⟩
  match b.build isCode with
  | .ok u => pure (u, a.labels)
  | .error e => throw (.code e)

end StackVm
