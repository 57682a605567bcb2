import StackVm.Operator

/-! The instruction set.  An instruction is one opcode byte followed by its operand bytes: none,
one (a slot, a count or a small signed integer), two (a little-endian pool index, slot, count or
jump distance) or three (a two-byte index and a one-byte count or flag set).  The opcode byte is
the position of the opcode in `Opcode.all`.

Forward jumps carry a signed distance measured from the end of the jump; the loop back-edge
`jumpBackward` carries an unsigned distance measured back from its own start.  The arithmetic,
comparison and unary opcodes each carry their operator, so the interpreter treats each family
by one rule. -/

namespace StackVm

/-- An opcode, the first byte of an instruction. -/
inductive Opcode where
  | pop | dup | dupTwo | rot2 | rot3 | rot4 | nop
  | loadConst | loadNone | loadTrue | loadFalse | loadSmallInt | loadInt | loadFloat
  | loadBigInt | loadStr | loadBytes
  | loadLocal | loadLocalW | storeLocal | storeLocalW | deleteLocal
  | loadDeref | storeDeref | deleteDeref | loadClosure
  | loadGlobal | storeGlobal | deleteGlobal | loadName | storeName | deleteName
  /-- A binary arithmetic or bitwise operator applied to the top two values. -/
  | binary (op : BinaryOp)
  /-- A rich comparison of the top two values. -/
  | compareWith (op : CompareOp)
  | compareIs | compareIsNot | compareIn | compareNotIn
  /-- A unary operator applied to the top value. -/
  | unary (op : UnaryOp)
  | buildList | buildTuple | buildDict | buildSet | unpackSequence
  | binarySubscr | storeSubscr | deleteSubscr | loadAttr | storeAttr | deleteAttr
  | jump | jumpBackward | jumpIfTrue | jumpIfFalse | jumpIfTrueOrPop | jumpIfFalseOrPop
  | getIter | forIter
  /-- A call with a fixed number of arguments, from none to four. -/
  | callArgs (n : Fin 5)
  | callFunction | callFunctionVarargs | callMethod | makeFunction
  | raise | raiseFrom | reraise | checkExcMatch | popExcept | loadAssertionError
  | returnValue | returnNone | yield
  | importName | importFrom
  deriving DecidableEq, Inhabited

namespace Opcode

/-- Every opcode, in byte order. -/
def all : Array Opcode :=
  #[pop, dup, dupTwo, rot2, rot3, rot4, nop,
    loadConst, loadNone, loadTrue, loadFalse, loadSmallInt, loadInt, loadFloat,
    loadBigInt, loadStr, loadBytes,
    loadLocal, loadLocalW, storeLocal, storeLocalW, deleteLocal,
    loadDeref, storeDeref, deleteDeref, loadClosure,
    loadGlobal, storeGlobal, deleteGlobal, loadName, storeName, deleteName]
  ++ (BinaryOp.all.map binary).toArray
  ++ (CompareOp.all.map compareWith).toArray
  ++ #[compareIs, compareIsNot, compareIn, compareNotIn]
  ++ (UnaryOp.all.map unary).toArray
  ++ #[buildList, buildTuple, buildDict, buildSet, unpackSequence,
    binarySubscr, storeSubscr, deleteSubscr, loadAttr, storeAttr, deleteAttr,
    jump, jumpBackward, jumpIfTrue, jumpIfFalse, jumpIfTrueOrPop, jumpIfFalseOrPop,
    getIter, forIter,
    callArgs 0, callArgs 1, callArgs 2, callArgs 3, callArgs 4,
    callFunction, callFunctionVarargs, callMethod, makeFunction,
    raise, raiseFrom, reraise, checkExcMatch, popExcept, loadAssertionError,
    returnValue, returnNone, yield,
    importName, importFrom]

/-- The opcode's byte. -/
def byte : Opcode → Nat
  | pop => 0 | dup => 1 | dupTwo => 2 | rot2 => 3 | rot3 => 4 | rot4 => 5 | nop => 6
  | loadConst => 7 | loadNone => 8 | loadTrue => 9 | loadFalse => 10 | loadSmallInt => 11
  | loadInt => 12 | loadFloat => 13 | loadBigInt => 14 | loadStr => 15 | loadBytes => 16
  | loadLocal => 17 | loadLocalW => 18 | storeLocal => 19 | storeLocalW => 20
  | deleteLocal => 21 | loadDeref => 22 | storeDeref => 23 | deleteDeref => 24
  | loadClosure => 25 | loadGlobal => 26 | storeGlobal => 27 | deleteGlobal => 28
  | loadName => 29 | storeName => 30 | deleteName => 31
  | binary op => 32 + op.ctorIdx
  | compareWith op => 44 + op.ctorIdx
  | compareIs => 50 | compareIsNot => 51 | compareIn => 52 | compareNotIn => 53
  | unary op => 54 + op.ctorIdx
  | buildList => 58 | buildTuple => 59 | buildDict => 60 | buildSet => 61
  | unpackSequence => 62 | binarySubscr => 63 | storeSubscr => 64 | deleteSubscr => 65
  | loadAttr => 66 | storeAttr => 67 | deleteAttr => 68
  | jump => 69 | jumpBackward => 70 | jumpIfTrue => 71 | jumpIfFalse => 72
  | jumpIfTrueOrPop => 73 | jumpIfFalseOrPop => 74 | getIter => 75 | forIter => 76
  | callArgs n => 77 + n.val
  | callFunction => 82 | callFunctionVarargs => 83 | callMethod => 84 | makeFunction => 85
  | raise => 86 | raiseFrom => 87 | reraise => 88 | checkExcMatch => 89 | popExcept => 90
  | loadAssertionError => 91 | returnValue => 92 | returnNone => 93 | yield => 94
  | importName => 95 | importFrom => 96

/-- The opcode a byte stands for, if any. -/
def ofByte? (b : Nat) : Option Opcode := all[b]?

/-- The opcode's name. -/
def name : Opcode → String
  | pop => "Pop" | dup => "Dup" | dupTwo => "DupTwo" | rot2 => "Rot2" | rot3 => "Rot3"
  | rot4 => "Rot4" | nop => "Nop"
  | loadConst => "LoadConst" | loadNone => "LoadNone" | loadTrue => "LoadTrue"
  | loadFalse => "LoadFalse" | loadSmallInt => "LoadSmallInt" | loadInt => "LoadInt"
  | loadFloat => "LoadFloat" | loadBigInt => "LoadBigInt" | loadStr => "LoadStr"
  | loadBytes => "LoadBytes"
  | loadLocal => "LoadLocal" | loadLocalW => "LoadLocalW" | storeLocal => "StoreLocal"
  | storeLocalW => "StoreLocalW" | deleteLocal => "DeleteLocal"
  | loadDeref => "LoadDeref" | storeDeref => "StoreDeref" | deleteDeref => "DeleteDeref"
  | loadClosure => "LoadClosure"
  | loadGlobal => "LoadGlobal" | storeGlobal => "StoreGlobal" | deleteGlobal => "DeleteGlobal"
  | loadName => "LoadName" | storeName => "StoreName" | deleteName => "DeleteName"
  | binary op => "Binary" ++ op.name
  | compareWith op => "Compare" ++ op.name
  | compareIs => "CompareIs" | compareIsNot => "CompareIsNot" | compareIn => "CompareIn"
  | compareNotIn => "CompareNotIn"
  | unary op => "Unary" ++ op.name
  | buildList => "BuildList" | buildTuple => "BuildTuple" | buildDict => "BuildDict"
  | buildSet => "BuildSet" | unpackSequence => "UnpackSequence"
  | binarySubscr => "BinarySubscr" | storeSubscr => "StoreSubscr"
  | deleteSubscr => "DeleteSubscr" | loadAttr => "LoadAttr" | storeAttr => "StoreAttr"
  | deleteAttr => "DeleteAttr"
  | jump => "Jump" | jumpBackward => "JumpBackward" | jumpIfTrue => "JumpIfTrue"
  | jumpIfFalse => "JumpIfFalse" | jumpIfTrueOrPop => "JumpIfTrueOrPop"
  | jumpIfFalseOrPop => "JumpIfFalseOrPop" | getIter => "GetIter" | forIter => "ForIter"
  | callArgs n => "CallFunction" ++ toString n.val
  | callFunction => "CallFunction" | callFunctionVarargs => "CallFunctionVarargs"
  | callMethod => "CallMethod" | makeFunction => "MakeFunction"
  | raise => "Raise" | raiseFrom => "RaiseFrom" | reraise => "Reraise"
  | checkExcMatch => "CheckExcMatch" | popExcept => "PopExcept"
  | loadAssertionError => "LoadAssertionError"
  | returnValue => "ReturnValue" | returnNone => "ReturnNone" | yield => "Yield"
  | importName => "ImportName" | importFrom => "ImportFrom"

/-- The opcode with a given name. -/
def ofName? (s : String) : Option Opcode := all.find? (·.name == s)

/-- The number of operand bytes after the opcode. -/
def operandLen : Opcode → Nat
  | loadSmallInt | loadLocal | storeLocal | unpackSequence | callFunction => 1
  | loadConst | loadInt | loadFloat | loadBigInt | loadStr | loadBytes
  | loadLocalW | storeLocalW | deleteLocal
  | loadDeref | storeDeref | deleteDeref | loadClosure
  | loadGlobal | storeGlobal | deleteGlobal | loadName | storeName | deleteName
  | buildList | buildTuple | buildDict | buildSet
  | loadAttr | storeAttr | deleteAttr
  | jump | jumpBackward | jumpIfTrue | jumpIfFalse | jumpIfTrueOrPop | jumpIfFalseOrPop
  | forIter | importName | importFrom => 2
  | callMethod | makeFunction => 3
  | _ => 0

/-- The size of the whole instruction. -/
def width (op : Opcode) : Nat := 1 + op.operandLen

/-- Whether the operand is a signed distance measured from the end of the instruction. -/
def isRelativeJump : Opcode → Bool
  | jump | jumpIfTrue | jumpIfFalse | jumpIfTrueOrPop | jumpIfFalseOrPop | forIter => true
  | _ => false

/-- Whether control never falls through to the next instruction. -/
def isTerminal : Opcode → Bool
  | jump | jumpBackward | returnValue | returnNone | raise | raiseFrom | reraise => true
  | _ => false

/-- The net change of the operand stack depth on the fall-through path, given the first
operand `n` and, for three-byte operands, the last byte `extra`. -/
def stackEffect (op : Opcode) (n : Int) (extra : Nat) : Int :=
  match op with
  | nop | rot2 | rot3 | rot4 | deleteLocal | deleteDeref | deleteGlobal | deleteName
  | unary _ | loadAttr | jump | jumpBackward | getIter | reraise | checkExcMatch
  | popExcept | returnNone | yield | callArgs 0 => 0
  | dup | loadConst | loadNone | loadTrue | loadFalse | loadSmallInt | loadInt | loadFloat
  | loadBigInt | loadStr | loadBytes | loadLocal | loadLocalW | loadDeref | loadClosure
  | loadGlobal | loadName | loadAssertionError | forIter | importName | importFrom => 1
  | dupTwo => 2
  | pop | storeLocal | storeLocalW | storeDeref | storeGlobal | storeName
  | binary _ | compareWith _ | compareIs | compareIsNot | compareIn | compareNotIn
  | binarySubscr | deleteAttr | jumpIfTrue | jumpIfFalse | jumpIfTrueOrPop | jumpIfFalseOrPop
  | callArgs 1 | callFunctionVarargs | raise | returnValue => -1
  | storeAttr | deleteSubscr | raiseFrom | callArgs 2 => -2
  | storeSubscr | callArgs 3 => -3
  | callArgs 4 => -4
  | callFunction => -n
  | buildList | buildTuple | buildSet => 1 - n
  | buildDict => 1 - 2 * n
  | unpackSequence => n - 1
  | callMethod => -(extra : Int)
  | makeFunction => 1 - (extra % 2 : Nat) - (extra / 2 % 2 : Nat)

/-- `makeFunction` flag: a tuple of default values is on the stack. -/
def withDefaults : Nat := 1

/-- `makeFunction` flag: a tuple of closure cells is on the stack. -/
def withClosure : Nat := 2

end Opcode

end StackVm
