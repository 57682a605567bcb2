import StackVm.Value.Equality
import StackVm.Numeric.Arith

/-! Hashing of dict keys and set members.  A hash is the sequence of writes it makes into the
hasher: a tag byte for the kind of value, then what the value holds.  Numbers that compare equal
hash alike whatever their kind: an integer hashes as a machine word when it fits one and as its
two's-complement bytes otherwise, and a whole double hashes as the integer it equals; any other
double hashes by its bits.  Strings and byte strings hash by content, tuples by their size and
then item by item, exception types by their place among the types, and every other stored
object by its address. -/

namespace StackVm

/-- One write a hash makes into the hasher. -/
inductive HashWrite where
  | u8 (n : UInt8)
  | i64 (i : Int)
  | u64 (n : UInt64)
  | usize (n : Nat)
  | isize (n : Nat)
  | lengthPrefix (n : Nat)
  | bytes (b : List UInt8)
  | str (s : String)
  deriving DecidableEq, Repr

namespace Hash

/-- The low `w` bytes of the two's complement of `i`, least significant first. -/
def bytesLE : Nat → Int → List UInt8
  | 0, _ => []
  | w + 1, i => UInt8.ofNat (i % 256).toNat :: bytesLE w (i / 256)

/-- The fewest bytes that hold `i` in two's complement, one at least. -/
def signedWidth (i : Int) : Nat :=
  ((if i < 0 then -i - 1 else i).toNat.log2 + 9) / 8

/-- The two's-complement bytes of `i`, least significant first, as few as hold it. -/
def signedBytes (i : Int) : List UInt8 := bytesLE (signedWidth i) i

/-- The writes that hash a word integer. -/
def int (i : Int) : List HashWrite := [.u8 1, .i64 i]

/-- The writes that hash an integer: as a word when it fits one. -/
def big (i : Int) : List HashWrite :=
  if Integer.fits i then int i else [.u8 8, .bytes (signedBytes i)]

/-- The writes that hash a double.  A finite whole double hashes as a word integer when it
converts to one and back to itself; otherwise as the wide integer it converts to, or as zero when
that is zero.  Any other double, the infinities and NaNs included, hashes by its bits. -/
def float (f : Float) : List HashWrite :=
  if Binary64.isIntegral f && Binary64.isFinite f then
    let wide : List HashWrite :=
      match Binary64.truncInt f with
      | some b => if b != 0 then big b else int 0
      | none => int 0
    match Integer.ofFloat? f with
    | some i => if Binary64.compareFloat (Binary64.ofInt i) f = some .eq then int i else wide
    | none => wide
  else [.u8 2, .u64 f.toBits]

end Hash

namespace Heap

/-- The writes that hash a value, through nested tuples to a bounded depth. -/
def hashAt (h : Heap) : Nat → Value → List HashWrite
  | 0, _ => []
  | _, .none => [.u8 0]
  | _, .bool b => Hash.int (if b then 1 else 0)
  | _, .int i => Hash.big i
  | _, .float f => Hash.float f
  | _, .excType t => [.u8 6, .isize t.ctorIdx]
  | fuel + 1, .ref a =>
    match h.get? a with
    | some (.bigInt i) => Hash.big i
    | some (.str s) => [.u8 3, .str s]
    | some (.bytes b) => [.u8 4, .lengthPrefix b.size, .bytes b.data.toList]
    | some (.tuple xs) => [.u8 5, .usize xs.size] ++ xs.toList.flatMap (h.hashAt fuel)
    | _ => [.u8 7, .usize a]

/-- The writes that hash a dict key or set member. -/
def hashValue (h : Heap) (v : Value) : List HashWrite := h.hashAt eqDepth v

end Heap

end StackVm
