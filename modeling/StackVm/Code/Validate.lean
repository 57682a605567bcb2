import StackVm.Code.Unit

/-! Checking a code unit before it runs.  The checks, in order: the parameters fit in the local
slots and every captured parameter names a real cell and parameter; the bytecode splits into
whole instructions of known opcodes; every operand indexes its pool in range, every function
built from a constant builds it from a code constant, every suspension sits in a suspendable
unit and every jump lands on an instruction start; the code is not empty and its last
instruction never falls through; and the handler table is well formed, its handlers are
instruction starts, its depths fit the stack and no range comes before a range nested in it.
The first failing check is reported. -/

namespace StackVm

namespace CodeUnit

/-- The offsets of the instructions from `offset` on, given the ones before. -/
def startsFrom (u : CodeUnit) : Nat → Nat → Array Nat → Except CodeError (Array Nat)
  | 0, _, acc => .ok acc
  | fuel + 1, offset, acc =>
    if offset < u.bytecode.size then
      let b := u.byteAt offset
      match Opcode.ofByte? b with
      | none => .error (.invalidOpcode offset b)
      | some op =>
        let next := offset + op.width
        if next > u.bytecode.size then .error (.truncatedOperand offset)
        else startsFrom u fuel next (acc.push offset)
    else .ok acc

/-- The offsets of every instruction, checking that each operand fits in the code. -/
def instructionStarts (u : CodeUnit) : Except CodeError (Array Nat) :=
  u.startsFrom (u.bytecode.size + 1) 0 #[]

/-- A jump target must be an instruction start inside the code. -/
def checkTarget (u : CodeUnit) (isStart : Nat → Bool) (offset : Nat) (target : Int) :
    Except CodeError Unit :=
  if 0 ≤ target ∧ target < u.bytecode.size then
    if isStart target.toNat then .ok () else .error (.jumpIntoInstruction offset target.toNat)
  else .error (.jumpOutOfBounds offset target)

/-- The operand checks of the instruction at an offset. -/
def checkOperands (u : CodeUnit) (isCode : Value → Bool) (isStart : Nat → Bool) (offset : Nat)
    (op : Opcode) : Except CodeError Unit :=
  let check (pool : Pool) (index len : Nat) : Except CodeError Unit :=
    if index < len then .ok () else .error (.indexOutOfRange offset pool index len)
  let operand := offset + 1
  match op with
  | .loadConst => check .constants (u.u16At operand) u.constants.size
  | .loadInt => check .ints (u.u16At operand) u.ints.size
  | .loadFloat => check .floats (u.u16At operand) u.floats.size
  | .loadBigInt => check .bigInts (u.u16At operand) u.bigInts.size
  | .loadStr => check .strings (u.u16At operand) u.strings.size
  | .loadBytes => check .bytes (u.u16At operand) u.bytes.size
  | .loadLocal | .storeLocal => check .locals (u.byteAt operand) u.localNames.size
  | .loadLocalW | .storeLocalW | .deleteLocal => check .locals (u.u16At operand) u.localNames.size
  | .loadDeref | .storeDeref | .deleteDeref | .loadClosure =>
    check .cells (u.u16At operand) u.derefCount
  | .loadGlobal | .storeGlobal | .deleteGlobal | .loadName | .storeName | .deleteName
  | .loadAttr | .storeAttr | .deleteAttr | .importName | .importFrom | .callMethod =>
    check .names (u.u16At operand) u.names.size
  | .makeFunction => do
    let index := u.u16At operand
    check .constants index u.constants.size
    match u.constants[index]? with
    | some v => if isCode v then .ok () else .error (.notACodeConstant offset index)
    | none => .error (.notACodeConstant offset index)
  | .yield => if u.generatorKind.isNone then .error (.yieldOutsideGenerator offset) else .ok ()
  | .jumpBackward => u.checkTarget isStart offset ((offset : Int) - u.u16At operand)
  | op =>
    if op.isRelativeJump then u.checkTarget isStart offset (offset + op.width + u.i16At operand)
    else .ok ()

/-- The handler table checks, for the ranges from `index` on. -/
def checkHandlers (u : CodeUnit) (isStart : Nat → Bool) :
    Nat → List HandlerRange → Except CodeError Unit
  | _, [] => .ok ()
  | index, r :: later => do
    let len := u.bytecode.size
    if r.start > r.stop || r.stop > len then .error (.malformedRange index r.start r.stop)
    else if r.handler ≥ len || !isStart r.handler then .error (.handlerOutOfBounds index r.handler)
    else if r.depth > u.stackSize then .error (.handlerDepth index r.depth u.stackSize)
    else match later.findIdx? r.strictlyEncloses with
      | some inner => .error (.unorderedRanges index (index + 1 + inner))
      | none => checkHandlers u isStart (index + 1) later

/-- Checks a code unit; `isCode` tells which constants are code units. -/
def validate (u : CodeUnit) (isCode : Value → Bool) : Except CodeError Unit := do
  let params := u.paramCount
  if params > u.localNames.size then
    throw (.paramsExceedLocals params u.localNames.size)
  for (cell, param) in u.cellArgs do
    if cell ≥ u.cellNames.size || param ≥ params then throw (.badCellArg cell param)
  let starts ← u.instructionStarts
  let marks := starts.foldl (fun acc s => acc.set! s true) (Array.replicate u.bytecode.size false)
  let isStart (i : Nat) : Bool := marks[i]?.getD false
  let mut last : Option Opcode := none
  for offset in starts do
    let op := (Opcode.ofByte? (u.byteAt offset)).getD .nop
    u.checkOperands isCode isStart offset op
    last := some op
  match last with
  | none => throw .empty
  | some op => if !op.isTerminal then throw .fallsOffEnd
  u.checkHandlers isStart 0 u.handlers.toList

end CodeUnit

end StackVm
