/-! Why a code unit is rejected.  A unit is checked once, when it is assembled; every rejection
names the first fault found, in the order the checks run: parameters and captured parameters,
then each instruction in offset order, then the end of the code, then the handler table.
Besides its message, each rejection reports its variant name and its numeric fields. -/

namespace StackVm

/-- A pool or table an instruction operand indexes. -/
inductive Pool where
  | constants | ints | floats | bigInts | strings | bytes | locals | cells | names
  deriving DecidableEq, Repr, Inhabited

/-- The pool's name in messages. -/
def Pool.name : Pool → String
  | .constants => "constants" | .ints => "ints" | .floats => "floats"
  | .bigInts => "big_ints" | .strings => "strings" | .bytes => "bytes"
  | .locals => "locals" | .cells => "cells" | .names => "names"

/-- The reason a code unit is rejected. -/
inductive CodeError where
  | empty
  | fallsOffEnd
  | invalidOpcode (offset byte : Nat)
  | truncatedOperand (offset : Nat)
  | jumpOutOfBounds (offset : Nat) (target : Int)
  | jumpIntoInstruction (offset target : Nat)
  | indexOutOfRange (offset : Nat) (pool : Pool) (index len : Nat)
  | notACodeConstant (offset index : Nat)
  | yieldOutsideGenerator (offset : Nat)
  | paramsExceedLocals (params locals : Nat)
  | badCellArg (cell param : Nat)
  | truncatedTable (len : Nat)
  | malformedRange (index start stop : Nat)
  | handlerOutOfBounds (index handler : Nat)
  | handlerDepth (index depth stackSize : Nat)
  | unorderedRanges (outer inner : Nat)
  | tooLarge (what : String)
  | stackUnderflow (offset : Nat)
  deriving Repr, Inhabited

/-- A field of a rejection report: a number or a name. -/
inductive ReportField where
  | num (n : Int)
  | text (s : String)
  deriving Repr, Inhabited

namespace CodeError

/-- The rejection's message. -/
def message : CodeError → String
  | empty => "empty bytecode"
  | fallsOffEnd => "execution can fall off the end of the bytecode"
  | invalidOpcode offset byte => s!"invalid opcode byte {byte} at offset {offset}"
  | truncatedOperand offset => s!"truncated operand at offset {offset}"
  | jumpOutOfBounds offset target =>
    s!"jump at offset {offset} targets {target}, outside the bytecode"
  | jumpIntoInstruction offset target =>
    s!"jump at offset {offset} targets {target}, inside an instruction"
  | indexOutOfRange offset pool index len =>
    s!"{pool.name} index {index} at offset {offset} out of range (len {len})"
  | notACodeConstant offset index =>
    s!"MakeFunction at offset {offset} references non-code constant {index}"
  | yieldOutsideGenerator offset => s!"Yield at offset {offset} outside a generator"
  | paramsExceedLocals params locals => s!"{params} parameters but only {locals} local slots"
  | badCellArg cell param => s!"cell argument ({cell}, {param}) out of range"
  | truncatedTable len => s!"exception table length {len} is not a multiple of 3"
  | malformedRange index start stop => s!"exception range {index} [{start}, {stop}) is malformed"
  | handlerOutOfBounds index handler =>
    s!"exception range {index} has invalid handler offset {handler}"
  | handlerDepth index depth stackSize =>
    s!"exception range {index} restores depth {depth} above stack size {stackSize}"
  | unorderedRanges outer inner => s!"exception range {outer} encloses later range {inner}"
  | tooLarge what => s!"too many {what}"
  | stackUnderflow offset => s!"stack depth goes negative at offset {offset}"

/-- The rejection's variant name. -/
def variant : CodeError → String
  | empty => "Empty"
  | fallsOffEnd => "FallsOffEnd"
  | invalidOpcode .. => "InvalidOpcode"
  | truncatedOperand .. => "TruncatedOperand"
  | jumpOutOfBounds .. => "JumpOutOfBounds"
  | jumpIntoInstruction .. => "JumpIntoInstruction"
  | indexOutOfRange .. => "IndexOutOfRange"
  | notACodeConstant .. => "NotACodeConstant"
  | yieldOutsideGenerator .. => "YieldOutsideGenerator"
  | paramsExceedLocals .. => "ParamsExceedLocals"
  | badCellArg .. => "BadCellArg"
  | truncatedTable .. => "TruncatedTable"
  | malformedRange .. => "MalformedRange"
  | handlerOutOfBounds .. => "HandlerOutOfBounds"
  | handlerDepth .. => "HandlerDepth"
  | unorderedRanges .. => "UnorderedRanges"
  | tooLarge .. => "TooLarge"
  | stackUnderflow .. => "StackUnderflow"

/-- The rejection's fields, by name. -/
def fields : CodeError → List (String × ReportField)
  | empty | fallsOffEnd => []
  | invalidOpcode offset byte => [("offset", .num offset), ("byte", .num byte)]
  | truncatedOperand offset => [("offset", .num offset)]
  | jumpOutOfBounds offset target => [("offset", .num offset), ("target", .num target)]
  | jumpIntoInstruction offset target => [("offset", .num offset), ("target", .num target)]
  | indexOutOfRange offset pool index len =>
    [("offset", .num offset), ("pool", .text pool.name), ("index", .num index), ("len", .num len)]
  | notACodeConstant offset index => [("offset", .num offset), ("index", .num index)]
  | yieldOutsideGenerator offset => [("offset", .num offset)]
  | paramsExceedLocals params locals => [("params", .num params), ("locals", .num locals)]
  | badCellArg cell param => [("cell", .num cell), ("param", .num param)]
  | truncatedTable len => [("len", .num len)]
  | malformedRange index start stop =>
    [("index", .num index), ("start", .num start), ("end", .num stop)]
  | handlerOutOfBounds index handler => [("index", .num index), ("handler", .num handler)]
  | handlerDepth index depth stackSize =>
    [("index", .num index), ("depth", .num depth), ("stack_size", .num stackSize)]
  | unorderedRanges outer inner => [("outer", .num outer), ("inner", .num inner)]
  | tooLarge what => [("what", .text what)]
  | stackUnderflow offset => [("offset", .num offset)]

end CodeError

end StackVm
