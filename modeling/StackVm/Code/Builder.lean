import StackVm.Code.Validate

/-! Building code units instruction by instruction.  The builder appends instructions, keeps
the pools (names, machine integers, doubles and strings are shared by equal entries; constants,
wide integers and byte strings are not), and follows the operand stack depth along the
fall-through path: each instruction adds its stack effect, a depth below zero is an error and
the largest depth becomes the unit's stack bound.  After an instruction that never falls
through, the depth of the next one is declared by the caller.

Errors met while emitting (a depth below zero, a pool or jump too large for its operand) are
kept, the first one only, and reported when the unit is finished.  Finishing sorts the
handler ranges by the number of offsets they cover, so that nested ranges come first, and
then checks the unit. -/

namespace StackVm

/-- A code unit under construction. -/
structure Builder where
  name : String
  bytecode : ByteArray := ByteArray.empty
  constants : Array Value := #[]
  ints : Array Int := #[]
  floats : Array Float := #[]
  bigInts : Array Int := #[]
  strings : Array String := #[]
  bytes : Array ByteArray := #[]
  names : Array String := #[]
  localNames : Array String := #[]
  cellNames : Array String := #[]
  freeNames : Array String := #[]
  argCount : Nat := 0
  flags : CodeFlags := CodeFlags.empty
  cellArgs : Array (Nat × Nat) := #[]
  handlers : Array HandlerRange := #[]
  lines : Array (Nat × Nat) := #[]
  firstLine : Option Nat := none
  depth : Int := 0
  maxDepth : Int := 0
  error : Option CodeError := none
  deriving Inhabited

namespace Builder

/-- A fresh builder for a unit with a given name. -/
def new (name : String) : Builder := { name }

/-- Keeps the first error. -/
def fail (b : Builder) (e : CodeError) : Builder :=
  match b.error with
  | some _ => b
  | none => { b with error := some e }

/-- An operand index, which must fit in sixteen bits. -/
def index (b : Builder) (i : Nat) (what : String) : Builder × Nat :=
  if i < 65536 then (b, i) else (b.fail (.tooLarge what), 0)

/-- The current offset, where the next instruction starts. -/
def offset (b : Builder) : Nat := b.bytecode.size

/-- The number of parameter slots. -/
def paramCount (b : Builder) : Nat := b.argCount + (if b.flags.hasVarargs then 1 else 0)

/-- Adds flags. -/
def setFlags (b : Builder) (f : CodeFlags) : Builder := { b with flags := b.flags.union f }

/-- Declares the next positional parameter; returns its slot.  The count of parameters is a
sixteen-bit counter, which wraps. -/
def addParam (b : Builder) (n : String) : Builder × Nat :=
  let (b, slot) := b.index b.localNames.size "locals"
  ({ b with localNames := b.localNames.push n, argCount := (b.argCount + 1) % 65536 }, slot)

/-- Declares the slot that gathers surplus arguments; returns it. -/
def addVarargs (b : Builder) (n : String) : Builder × Nat :=
  let (b, slot) := b.index b.localNames.size "locals"
  ({ b with localNames := b.localNames.push n, flags := b.flags.union CodeFlags.varargs }, slot)

/-- The slot of a local, declaring it unless one of that name exists. -/
def addLocal (b : Builder) (n : String) : Builder × Nat :=
  match b.localNames.idxOf? n with
  | some i => b.index i "locals"
  | none =>
    let (b, slot) := b.index b.localNames.size "locals"
    ({ b with localNames := b.localNames.push n }, slot)

/-- Declares a cell and returns its index; a cell named like a parameter starts with that
argument. -/
def addCellVar (b : Builder) (n : String) : Builder × Nat :=
  let (b, cell) := b.index b.cellNames.size "cells"
  let b := { b with cellNames := b.cellNames.push n }
  let params := b.localNames.extract 0 (min b.paramCount b.localNames.size)
  match params.idxOf? n with
  | some p =>
    let (b, p) := b.index p "locals"
    ({ b with cellArgs := b.cellArgs.push (cell, p) }, cell)
  | none => (b, cell)

/-- Declares a free variable; returns its index among the cells and free variables. -/
def addFreeVar (b : Builder) (n : String) : Builder × Nat :=
  let (b, i) := b.index (b.cellNames.size + b.freeNames.size) "cells"
  ({ b with freeNames := b.freeNames.push n }, i)

/-- The index of a name, adding it on first use. -/
def addName (b : Builder) (n : String) : Builder × Nat :=
  match b.names.idxOf? n with
  | some i => b.index i "names"
  | none =>
    let i := b.names.size
    ({ b with names := b.names.push n }).index i "names"

/-- Adds a constant. -/
def addConst (b : Builder) (v : Value) : Builder × Nat :=
  let i := b.constants.size
  ({ b with constants := b.constants.push v }).index i "constants"

/-- The index of a machine integer, adding it on first use. -/
def addInt (b : Builder) (v : Int) : Builder × Nat :=
  match b.ints.idxOf? v with
  | some i => b.index i "ints"
  | none =>
    let i := b.ints.size
    ({ b with ints := b.ints.push v }).index i "ints"

/-- The index of a double, adding it on first use; doubles are equal when their bits are. -/
def addFloat (b : Builder) (v : Float) : Builder × Nat :=
  match b.floats.findIdx? (·.toBits == v.toBits) with
  | some i => b.index i "floats"
  | none =>
    let i := b.floats.size
    ({ b with floats := b.floats.push v }).index i "floats"

/-- Adds a wide integer. -/
def addBigInt (b : Builder) (v : Int) : Builder × Nat :=
  let i := b.bigInts.size
  ({ b with bigInts := b.bigInts.push v }).index i "big_ints"

/-- The index of a string, adding it on first use. -/
def addStr (b : Builder) (v : String) : Builder × Nat :=
  match b.strings.idxOf? v with
  | some i => b.index i "strings"
  | none =>
    let i := b.strings.size
    ({ b with strings := b.strings.push v }).index i "strings"

/-- Adds a byte string. -/
def addBytes (b : Builder) (v : ByteArray) : Builder × Nat :=
  let i := b.bytes.size
  ({ b with bytes := b.bytes.push v }).index i "bytes"

/-- Records the source line of the instructions emitted from here on.  A line equal to the
last recorded one adds nothing; a new line at the offset of the last entry replaces it. -/
def setLocation (b : Builder) (line : Nat) : Builder :=
  let b := { b with firstLine := some (b.firstLine.getD line) }
  let offset := b.offset
  match b.lines.back? with
  | some (lastOffset, lastLine) =>
    if lastLine = line then b
    else if lastOffset = offset then { b with lines := b.lines.pop.push (offset, line) }
    else { b with lines := b.lines.push (offset, line) }
  | none => { b with lines := b.lines.push (offset, line) }

/-- Declares the stack depth at the current offset. -/
def setStackDepth (b : Builder) (depth : Nat) : Builder :=
  { b with depth := depth, maxDepth := max b.maxDepth depth }

/-- Applies an instruction's stack effect. -/
def adjust (b : Builder) (offset : Nat) (effect : Int) : Builder :=
  let d := b.depth + effect
  let b := if d < 0 then { b.fail (.stackUnderflow offset) with depth := 0 }
    else { b with depth := d }
  { b with maxDepth := max b.maxDepth b.depth }

/-- Appends an instruction with its operand bytes and stack effect. -/
def emitRaw (b : Builder) (op : Opcode) (operands : List Nat) (effect : Int) : Builder :=
  let offset := b.offset
  let code := operands.foldl (fun acc x => acc.push x.toUInt8) (b.bytecode.push op.byte.toUInt8)
  ({ b with bytecode := code }).adjust offset effect

/-- The two little-endian bytes of a 16-bit operand. -/
def wordBytes (n : Nat) : List Nat := [n % 256, n / 256 % 256]

/-- An instruction without operands. -/
def emit (b : Builder) (op : Opcode) : Builder := b.emitRaw op [] (op.stackEffect 0 0)

/-- An instruction with a one-byte unsigned operand. -/
def emitU8 (b : Builder) (op : Opcode) (n : Nat) : Builder :=
  b.emitRaw op [n % 256] (op.stackEffect (n % 256) 0)

/-- An instruction with a one-byte signed operand. -/
def emitI8 (b : Builder) (op : Opcode) (n : Int) : Builder :=
  b.emitRaw op [(n % 256).toNat] (op.stackEffect 0 0)

/-- An instruction with a two-byte operand. -/
def emitU16 (b : Builder) (op : Opcode) (n : Nat) : Builder :=
  b.emitRaw op (wordBytes n) (op.stackEffect (n % 65536) 0)

/-- An instruction with a two-byte operand and a one-byte operand. -/
def emitU16U8 (b : Builder) (op : Opcode) (n extra : Nat) : Builder :=
  b.emitRaw op (wordBytes n ++ [extra % 256]) (op.stackEffect (n % 65536) (extra % 256))

/-- Pushes an integer: inline when it fits in a signed byte, from the pool otherwise. -/
def emitLoadInt (b : Builder) (v : Int) : Builder :=
  if -128 ≤ v ∧ v < 128 then b.emitI8 .loadSmallInt v
  else
    let (b, i) := b.addInt v
    b.emitU16 .loadInt i

/-- Pushes a local slot, with a one-byte operand when the slot fits in one. -/
def emitLoadLocal (b : Builder) (slot : Nat) : Builder :=
  if slot < 256 then b.emitU8 .loadLocal slot else b.emitU16 .loadLocalW slot

/-- Stores into a local slot, with a one-byte operand when the slot fits in one. -/
def emitStoreLocal (b : Builder) (slot : Nat) : Builder :=
  if slot < 256 then b.emitU8 .storeLocal slot else b.emitU16 .storeLocalW slot

/-- Pushes a string from the pool. -/
def emitLoadStr (b : Builder) (v : String) : Builder :=
  let (b, i) := b.addStr v
  b.emitU16 .loadStr i

/-- Pushes a constant, added to the pool. -/
def emitLoadConst (b : Builder) (v : Value) : Builder :=
  let (b, i) := b.addConst v
  b.emitU16 .loadConst i

/-- Emits a forward jump with a placeholder distance; returns where to patch it. -/
def emitJump (b : Builder) (op : Opcode) : Builder × Nat :=
  let label := b.offset + 1
  (b.emitRaw op [0, 0] (op.stackEffect 0 0), label)

/-- Points the forward jump whose operand is at `label` at the current offset. -/
def patchJump (b : Builder) (label : Nat) : Builder :=
  let delta : Int := (b.offset : Int) - (label + 2)
  let (b, delta) := if -32768 ≤ delta ∧ delta < 32768 then (b, delta)
    else (b.fail (.tooLarge "jump distance"), 0)
  let w := (delta % 65536).toNat
  { b with bytecode := (b.bytecode.set! label (w % 256).toUInt8).set! (label + 1) (w / 256).toUInt8 }

/-- Emits a loop back-edge to an earlier offset. -/
def emitJumpBack (b : Builder) (target : Nat) : Builder :=
  let distance := b.offset - target
  let (b, distance) := if distance < 65536 then (b, distance)
    else (b.fail (.tooLarge "jump distance"), 0)
  b.emitU16 .jumpBackward distance

/-- Adds a handler range. -/
def addHandler (b : Builder) (r : HandlerRange) : Builder :=
  { b with handlers := b.handlers.push r }

/-- The unit the builder describes, unchecked, with the given stack bound. -/
def toUnit (b : Builder) (stackSize : Nat) : CodeUnit where
  name := b.name
  bytecode := b.bytecode
  constants := b.constants
  ints := b.ints
  floats := b.floats
  bigInts := b.bigInts
  strings := b.strings
  bytes := b.bytes
  names := b.names
  localNames := b.localNames
  cellNames := b.cellNames
  freeNames := b.freeNames
  argCount := b.argCount
  flags := b.flags
  stackSize := stackSize
  handlers := (b.handlers.toList.mergeSort (fun r s => r.span ≤ s.span)).toArray
  cellArgs := b.cellArgs
  lines := b.lines
  firstLine := b.firstLine.getD 1

/-- Finishes and checks the unit. -/
def build (b : Builder) (isCode : Value → Bool) : Except CodeError CodeUnit := do
  if let some e := b.error then throw e
  if b.maxDepth > 65535 then throw (.tooLarge "stack slots")
  let u := b.toUnit b.maxDepth.toNat
  u.validate isCode
  pure u

end Builder

end StackVm
