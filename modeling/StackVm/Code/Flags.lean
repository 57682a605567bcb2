/-! The flags of a code unit and the kind of suspendable object a flagged unit creates when it
is called.  The flags form a bit set: bit 0 marks a generator, bit 1 a coroutine, bit 2 an
asynchronous generator and bit 3 a unit that gathers surplus arguments into a tuple.  When
several kinds are flagged, the asynchronous generator wins over the coroutine, which wins over
the generator. -/

namespace StackVm

/-- The kind of suspendable object a call creates. -/
inductive GeneratorKind where
  | generator
  | coroutine
  | asyncGenerator
  deriving DecidableEq, Repr, Inhabited

namespace GeneratorKind

/-- The kind's type name. -/
def typeName : GeneratorKind → String
  | generator => "generator"
  | coroutine => "coroutine"
  | asyncGenerator => "async_generator"

/-- The kind's name in messages. -/
def displayName : GeneratorKind → String
  | generator => "generator"
  | coroutine => "coroutine"
  | asyncGenerator => "async generator"

/-- Only plain generators are iterable. -/
def isIterable (k : GeneratorKind) : Bool := k == generator

end GeneratorKind

/-- The flag set of a code unit. -/
structure CodeFlags where
  bits : Nat
  deriving DecidableEq, Repr, Inhabited

namespace CodeFlags

/-- No flag. -/
def empty : CodeFlags := ⟨0⟩

/-- Calling the unit creates a generator. -/
def generator : CodeFlags := ⟨1⟩

/-- Calling the unit creates a coroutine. -/
def coroutine : CodeFlags := ⟨2⟩

/-- Calling the unit creates an asynchronous generator. -/
def asyncGenerator : CodeFlags := ⟨4⟩

/-- Surplus positional arguments are gathered into a tuple after the parameters. -/
def varargs : CodeFlags := ⟨8⟩

/-- The union of two flag sets. -/
def union (a b : CodeFlags) : CodeFlags := ⟨a.bits ||| b.bits⟩

/-- Whether every flag of `b` is in `a`. -/
def contains (a b : CodeFlags) : Bool := a.bits &&& b.bits == b.bits

/-- Whether surplus arguments are gathered. -/
def hasVarargs (f : CodeFlags) : Bool := f.contains varargs

/-- The flag with a given name. -/
def ofName? : String → Option CodeFlags
  | "GENERATOR" => some generator
  | "COROUTINE" => some coroutine
  | "ASYNC_GENERATOR" => some asyncGenerator
  | "VARARGS" => some varargs
  | _ => none

/-- The kind of object a call of a unit with these flags creates; `none` for a plain
function. -/
def generatorKind (f : CodeFlags) : Option GeneratorKind :=
  if f.contains asyncGenerator then some .asyncGenerator
  else if f.contains coroutine then some .coroutine
  else if f.contains generator then some .generator
  else none

end CodeFlags

end StackVm
