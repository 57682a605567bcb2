/-! The exception classes of the engine and the kinds of error it reports.  The classes form a
fixed hierarchy under `BaseException`: `isSubclassOf` is the rule an `except` clause uses.
`GeneratorExit` sits outside `Exception`, so a handler for `Exception` does not swallow the
signal that closes a generator.  Every error also has a kind, which by default follows its
class: the name errors report an unbound variable, the completion signals an exhausted
iteration, everything else an operation failure. -/

namespace StackVm

/-- The exception classes known to the engine. -/
inductive ExcType where
  | baseException
  | generatorExit
  | exception
  | arithmeticError
  | overflowError
  | zeroDivisionError
  | lookupError
  | indexError
  | keyError
  | runtimeError
  | notImplementedError
  | recursionError
  | nameError
  | unboundLocalError
  | importError
  | moduleNotFoundError
  | stopIteration
  | stopAsyncIteration
  | assertionError
  | attributeError
  | typeError
  | valueError
  deriving DecidableEq, Repr, Inhabited

namespace ExcType

/-- The class name, as written in messages. -/
def name : ExcType → String
  | baseException => "BaseException"
  | generatorExit => "GeneratorExit"
  | exception => "Exception"
  | arithmeticError => "ArithmeticError"
  | overflowError => "OverflowError"
  | zeroDivisionError => "ZeroDivisionError"
  | lookupError => "LookupError"
  | indexError => "IndexError"
  | keyError => "KeyError"
  | runtimeError => "RuntimeError"
  | notImplementedError => "NotImplementedError"
  | recursionError => "RecursionError"
  | nameError => "NameError"
  | unboundLocalError => "UnboundLocalError"
  | importError => "ImportError"
  | moduleNotFoundError => "ModuleNotFoundError"
  | stopIteration => "StopIteration"
  | stopAsyncIteration => "StopAsyncIteration"
  | assertionError => "AssertionError"
  | attributeError => "AttributeError"
  | typeError => "TypeError"
  | valueError => "ValueError"

/-- Every class, in the order the builtin namespace lists them. -/
def all : List ExcType :=
  [baseException, generatorExit, exception, arithmeticError, overflowError, zeroDivisionError,
   lookupError, indexError, keyError, runtimeError, notImplementedError, recursionError,
   nameError, unboundLocalError, importError, moduleNotFoundError, stopIteration,
   stopAsyncIteration, assertionError, attributeError, typeError, valueError]

/-- The class with a given name. -/
def ofName? (s : String) : Option ExcType := all.find? (·.name == s)

/-- Whether an exception of class `t` is caught by a handler for class `h`. -/
def isSubclassOf (t h : ExcType) : Bool :=
  if t = h then true
  else match h with
    | baseException => true
    | exception => !(t = baseException || t = generatorExit)
    | lookupError => t = keyError || t = indexError
    | arithmeticError => t = zeroDivisionError || t = overflowError
    | runtimeError => t = recursionError || t = notImplementedError
    | nameError => t = unboundLocalError
    | importError => t = moduleNotFoundError
    | _ => false

end ExcType

/-- The abstract kind of an error the engine reports. -/
inductive ErrorKind where
  /-- A local, cell or free variable was read while empty. -/
  | unboundVariable
  /-- The operand stack left its bounds; never offered to a handler. -/
  | stackUsageViolation
  /-- A failure raised by an operation or by the program. -/
  | unhandledOperationFailure
  /-- The completion signal of a generator or an iterator. -/
  | iterationExhausted
  /-- A generator was resumed while it was running. -/
  | reentrancyViolation
  /-- A generator broke its protocol, such as ignoring `GeneratorExit`. -/
  | protocolViolation
  deriving DecidableEq, Repr, Inhabited

namespace ErrorKind

/-- The kind's name, as reported. -/
def name : ErrorKind → String
  | unboundVariable => "UnboundVariable"
  | stackUsageViolation => "StackUsageViolation"
  | unhandledOperationFailure => "UnhandledOperationFailure"
  | iterationExhausted => "IterationExhausted"
  | reentrancyViolation => "ReentrancyViolation"
  | protocolViolation => "ProtocolViolation"

/-- The kind an exception of a class has unless it was given another. -/
def ofType : ExcType → ErrorKind
  | .nameError | .unboundLocalError => unboundVariable
  | .stopIteration | .stopAsyncIteration => iterationExhausted
  | _ => unhandledOperationFailure

end ErrorKind

/-- An exception about to be raised by an operation: its class and message. -/
structure Raise where
  type : ExcType
  message : Option String
  deriving Repr, Inhabited

namespace Raise

/-- A raise with a message. -/
def msg (type : ExcType) (message : String) : Raise := ⟨type, some message⟩

/-- `TypeError: unsupported operand type(s) for op: 'l' and 'r'`. -/
def binaryType (op lhs rhs : String) : Raise :=
  msg .typeError s!"unsupported operand type(s) for {op}: '{lhs}' and '{rhs}'"

/-- `TypeError: bad operand type for unary op: 't'`. -/
def unaryType (op operand : String) : Raise :=
  msg .typeError s!"bad operand type for unary {op}: '{operand}'"

/-- `TypeError: 'op' not supported between instances of 'l' and 'r'`. -/
def compareType (op lhs rhs : String) : Raise :=
  msg .typeError s!"'{op}' not supported between instances of '{lhs}' and '{rhs}'"

/-- `TypeError: 't' object is not callable`. -/
def notCallable (t : String) : Raise := msg .typeError s!"'{t}' object is not callable"

/-- `TypeError: 't' object is not iterable`. -/
def notIterable (t : String) : Raise := msg .typeError s!"'{t}' object is not iterable"

/-- `AttributeError: 't' object has no attribute 'a'`. -/
def noAttribute (t attr : String) : Raise :=
  msg .attributeError s!"'{t}' object has no attribute '{attr}'"

/-- `NameError: name 'n' is not defined`. -/
def nameUndefined (n : String) : Raise := msg .nameError s!"name '{n}' is not defined"

/-- The error for reading a local variable that holds nothing. -/
def unboundLocal (n : String) : Raise :=
  msg .unboundLocalError
    s!"cannot access local variable '{n}' where it is not associated with a value"

/-- The error for reading a free variable whose cell holds nothing. -/
def unboundFree (n : String) : Raise :=
  msg .nameError
    s!"cannot access free variable '{n}' where it is not associated with a value in enclosing scope"

/-- `TypeError: unhashable type: 't'`. -/
def unhashable (t : String) : Raise := msg .typeError s!"unhashable type: '{t}'"

/-- `RecursionError: maximum recursion depth exceeded`. -/
def recursion : Raise := msg .recursionError "maximum recursion depth exceeded"

end Raise

end StackVm
