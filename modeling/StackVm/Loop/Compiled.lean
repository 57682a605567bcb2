import StackVm.Code.Unit

/-! Compiled loops.  A hot loop's region, from its header to the end of its back-edge, is
decoded once into a flat list of operations that need no operand decoding: local slot access,
constants, stack shuffles, integer arithmetic and comparisons, boolean tests, jumps and
iteration.  A jump inside the region becomes the index of its target operation; a jump out of
it becomes an exit at the target offset.  A region with any other instruction is rejected, and
so are arithmetic and comparisons when the fast paths for primitive values are off. -/

namespace StackVm

/-- Where a compiled jump goes. -/
inductive LoopTarget where
  /-- The operation at an index of the compiled loop. -/
  | inside (index : Nat)
  /-- Leave the compiled loop at a bytecode offset. -/
  | exit (pc : Nat)
  deriving Inhabited

/-- An operation of a compiled loop. -/
inductive LoopOp where
  | loadLocal (slot : Nat)
  | storeLocal (slot : Nat)
  | push (v : Value)
  | pop
  | dup
  | rot2
  | nop
  | binary (op : BinaryOp)
  | compare (op : CompareOp)
  | not
  | jump (target : LoopTarget)
  | jumpIfTrue (target : LoopTarget)
  | jumpIfFalse (target : LoopTarget)
  | forIter (target : LoopTarget)
  deriving Inhabited

/-- Why a loop region is not compiled. -/
inductive Rejection where
  | unsupportedOpcode (op : Opcode)
  | noPrimitiveFastPaths
  | malformed
  deriving Inhabited

/-- A compiled loop: its header, the stack depth it is entered at, and its operations, each
with the offset it was decoded from. -/
structure CompiledLoop where
  header : Nat
  entryDepth : Nat
  ops : Array (Nat × LoopOp)
  deriving Inhabited

namespace CompiledLoop

/-- A decoded operation: its offset, the operation and the offset a jump goes to. -/
abbrev Decoded := Nat × LoopOp × Option Nat

/-- Decodes the instruction at `pc` of a region ending at `stop`. -/
def decodeAt (u : CodeUnit) (fastPaths : Bool) (pc : Nat) (op : Opcode) :
    Except Rejection (LoopOp × Option Nat) :=
  let next := pc + op.width
  let relative : Except Rejection Nat :=
    let t := (next : Int) + u.i16At (pc + 1)
    if t < 0 then .error .malformed else .ok t.toNat
  let arith (x : LoopOp) : Except Rejection (LoopOp × Option Nat) :=
    if fastPaths then .ok (x, none) else .error .noPrimitiveFastPaths
  let intAt (i : Nat) : Value := .int ((u.ints[i]?).getD 0)
  match op with
  | .loadLocal => .ok (.loadLocal (u.byteAt (pc + 1)), none)
  | .loadLocalW => .ok (.loadLocal (u.u16At (pc + 1)), none)
  | .storeLocal => .ok (.storeLocal (u.byteAt (pc + 1)), none)
  | .storeLocalW => .ok (.storeLocal (u.u16At (pc + 1)), none)
  | .loadSmallInt => .ok (.push (.int (CodeUnit.signedByte (u.byteAt (pc + 1)))), none)
  | .loadInt => .ok (.push (intAt (u.u16At (pc + 1))), none)
  | .loadFloat => .ok (.push (.float ((u.floats[u.u16At (pc + 1)]?).getD 0)), none)
  | .loadConst => .ok (.push ((u.constants[u.u16At (pc + 1)]?).getD .none), none)
  | .loadNone => .ok (.push .none, none)
  | .loadTrue => .ok (.push (.bool true), none)
  | .loadFalse => .ok (.push (.bool false), none)
  | .pop => .ok (.pop, none)
  | .dup => .ok (.dup, none)
  | .rot2 => .ok (.rot2, none)
  | .nop => .ok (.nop, none)
  | .unary .not => .ok (.not, none)
  | .binary o =>
    match o with
    | .add | .sub | .mul | .floorDiv | .mod | .and | .or | .xor => arith (.binary o)
    | _ => .error (.unsupportedOpcode op)
  | .compareWith o => arith (.compare o)
  | .jump => relative.map fun t => (.jump (.exit 0), some t)
  | .jumpIfTrue => relative.map fun t => (.jumpIfTrue (.exit 0), some t)
  | .jumpIfFalse => relative.map fun t => (.jumpIfFalse (.exit 0), some t)
  | .forIter => relative.map fun t => (.forIter (.exit 0), some t)
  | .jumpBackward =>
    let d := u.u16At (pc + 1)
    if pc < d then .error .malformed else .ok (.jump (.exit 0), some (pc - d))
  | other => .error (.unsupportedOpcode other)

/-- Decodes the region from `pc` to `stop`. -/
def decodeFrom (u : CodeUnit) (fastPaths : Bool) (stop : Nat) :
    Nat → Nat → Array Decoded → Except Rejection (Array Decoded)
  | 0, _, acc => .ok acc
  | fuel + 1, pc, acc =>
    if pc < stop then
      match Opcode.ofByte? (u.byteAt pc) with
      | none => .error .malformed
      | some op =>
        if pc + op.width > u.bytecode.size then .error .malformed
        else do
          let (x, t) ← decodeAt u fastPaths pc op
          decodeFrom u fastPaths stop fuel (pc + op.width) (acc.push (pc, x, t))
    else .ok acc

/-- The index of the operation decoded from an offset. -/
def indexOf (offsets : Array Nat) (target : Nat) : Option Nat :=
  offsets.findIdx? (· == target)

/-- Gives a decoded jump its resolved target. -/
def resolve (offsets : Array Nat) (header stop : Nat) (x : LoopOp) (t : Option Nat) :
    Except Rejection LoopOp :=
  match t with
  | none => .ok x
  | some target =>
    let r : Except Rejection LoopTarget :=
      if header ≤ target ∧ target < stop then
        match indexOf offsets target with
        | some i => .ok (.inside i)
        | none => .error .malformed
      else .ok (.exit target)
    r.map fun tgt => match x with
      | .jump _ => .jump tgt
      | .jumpIfTrue _ => .jumpIfTrue tgt
      | .jumpIfFalse _ => .jumpIfFalse tgt
      | .forIter _ => .forIter tgt
      | other => other

/-- Compiles the loop whose header and back-edge are given, to be entered at a stack depth. -/
def compile (u : CodeUnit) (header backEdge entryDepth : Nat) (fastPaths : Bool) :
    Except Rejection CompiledLoop := do
  let stop := backEdge + Opcode.jumpBackward.width
  if header > backEdge || stop > u.bytecode.size then throw .malformed
  let decoded ← decodeFrom u fastPaths stop (stop - header + 1) header #[]
  let offsets := decoded.map (·.1)
  let ops ← decoded.mapM fun (pc, x, t) => do
    let x ← resolve offsets header stop x t
    pure (pc, x)
  pure { header, entryDepth, ops }

end CompiledLoop

end StackVm
