import StackVm.Code.Opcode
import StackVm.Code.Flags
import StackVm.Code.Handler
import StackVm.Value.Basic

/-! Code units: the compiled form of one function body.  A unit holds its bytecode, the pools
its operands index (constants, machine integers, doubles, wide integers, strings, byte strings
and names), the names of its local slots, its cells and its free variables, its flags, the
declared bound of its operand stack, its handler table and its line table.

The line of an offset is the line of the last line-table entry at or before it, or the first
line when no entry is.  The entry is found by halving the table, which on a table sorted by
offset is exactly that entry. -/

namespace StackVm

/-- A compiled function body. -/
structure CodeUnit where
  name : String
  bytecode : ByteArray
  constants : Array Value
  ints : Array Int
  floats : Array Float
  bigInts : Array Int
  strings : Array String
  bytes : Array ByteArray
  names : Array String
  localNames : Array String
  cellNames : Array String
  freeNames : Array String
  argCount : Nat
  flags : CodeFlags
  stackSize : Nat
  handlers : HandlerTable
  cellArgs : Array (Nat × Nat)
  lines : Array (Nat × Nat)
  firstLine : Nat
  deriving Inhabited

namespace CodeUnit

/-- The byte at an offset, zero past the end. -/
@[inline] def byteAt (u : CodeUnit) (i : Nat) : Nat := (u.bytecode[i]?.getD 0).toNat

/-- The little-endian unsigned 16-bit operand at an offset. -/
@[inline] def u16At (u : CodeUnit) (i : Nat) : Nat := u.byteAt i + 256 * u.byteAt (i + 1)

/-- The two's-complement reading of a byte. -/
@[inline] def signedByte (b : Nat) : Int := if b < 128 then b else (b : Int) - 256

/-- The little-endian signed 16-bit operand at an offset. -/
@[inline] def i16At (u : CodeUnit) (i : Nat) : Int :=
  let v := u.u16At i
  if v < 32768 then v else (v : Int) - 65536

/-- The number of parameter slots: the parameters and the slot of surplus arguments. -/
def paramCount (u : CodeUnit) : Nat := u.argCount + (if u.flags.hasVarargs then 1 else 0)

/-- The number of cells and free variables together. -/
def derefCount (u : CodeUnit) : Nat := u.cellNames.size + u.freeNames.size

/-- The name of a cell or free variable by its index among both. -/
def derefName (u : CodeUnit) (i : Nat) : String :=
  match u.cellNames[i]? with
  | some n => n
  | none => (u.freeNames[i - u.cellNames.size]?).getD "?"

/-- The kind of object a call creates, if the unit is suspendable. -/
def generatorKind (u : CodeUnit) : Option GeneratorKind := u.flags.generatorKind

/-- The partition point of the line table for an offset, found by halving: `base` is the
candidate and `size` the width of the part still undecided. -/
def linePoint (lines : Array (Nat × Nat)) (offset : Nat) : Nat → Nat → Nat → Nat
  | 0, base, _ => base
  | fuel + 1, base, size =>
    if size ≤ 1 then
      match lines[base]? with
      | some (start, _) => if start ≤ offset then base + 1 else base
      | none => base
    else
      let half := size / 2
      let mid := base + half
      let base := match lines[mid]? with
        | some (start, _) => if start ≤ offset then mid else base
        | none => base
      linePoint lines offset fuel base (size - half)

/-- The source line of the instruction at an offset. -/
def lineFor (u : CodeUnit) (offset : Nat) : Nat :=
  if u.lines.size = 0 then u.firstLine
  else
    match linePoint u.lines offset u.lines.size 0 u.lines.size with
    | 0 => u.firstLine
    | n + 1 => (u.lines[n]?.map Prod.snd).getD u.firstLine

end CodeUnit

end StackVm
