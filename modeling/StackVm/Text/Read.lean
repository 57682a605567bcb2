import StackVm.Numeric.Binary64

/-! Reading numbers and byte strings from text.  Unsigned integers are decimal digits after an
optional `+`; signed integers allow `-` as well; a value past the given width is rejected.
Doubles are decimal numbers with an optional fraction and exponent, or `inf`, `infinity` or
`nan` in any case, each with an optional sign; a decimal is rounded to the nearest double.
Byte strings are written as pairs of hex digits. -/

namespace StackVm.Read

/-- The value of a digit character. -/
def digit? (c : Char) : Option Nat := if c.isDigit then some (c.toNat - 48) else none

/-- The number a nonempty list of digits spells. -/
def digits? : List Char → Option Nat
  | [] => none
  | cs => cs.foldlM (fun acc c => (digit? c).map (acc * 10 + ·)) 0

/-- An unsigned integer below `bound`, with an optional `+`. -/
def unsigned? (s : String) (bound : Nat) : Option Nat :=
  let cs := match s.toList with
    | '+' :: rest => rest
    | cs => cs
  (digits? cs).bind fun n => if n < bound then some n else none

/-- A signed integer of any size, with an optional sign. -/
def integer? (s : String) : Option Int :=
  match s.toList with
  | '-' :: rest => (digits? rest).map fun n => -(n : Int)
  | '+' :: rest => (digits? rest).map Int.ofNat
  | cs => (digits? cs).map Int.ofNat

/-- The digits of a decimal mantissa and the number of them after the point. -/
def mantissa? (cs : List Char) : Option (Nat × Nat) :=
  let whole := cs.takeWhile Char.isDigit
  match cs.dropWhile Char.isDigit with
  | [] => (digits? whole).map (·, 0)
  | '.' :: frac =>
    if frac.all Char.isDigit && (whole.length + frac.length > 0) then
      some ((whole ++ frac).foldl (fun acc c => acc * 10 + (c.toNat - 48)) 0, frac.length)
    else none
  | _ => none

/-- A double from its text. -/
def float? (s : String) : Option Float :=
  let (neg, body) := match s.toList with
    | '-' :: rest => (true, rest)
    | '+' :: rest => (false, rest)
    | cs => (false, cs)
  let word := String.ofList (body.map Char.toLower)
  if word == "inf" || word == "infinity" then some (Binary64.infinity neg)
  else if word == "nan" then some Binary64.nan
  else
    let num := body.takeWhile (fun c => c != 'e' && c != 'E')
    let expPart := body.dropWhile (fun c => c != 'e' && c != 'E')
    let exp? : Option Int := match expPart with
      | [] => some 0
      | _ :: rest => integer? (String.ofList rest)
    match mantissa? num, exp? with
    | some (m, frac), some e => some (Binary64.ofDecimal neg m (e - frac))
    | _, _ => none

/-- The value of a hex digit. -/
def hexDigit? (c : Char) : Option Nat :=
  if c.isDigit then some (c.toNat - 48)
  else if 'a' ≤ c ∧ c ≤ 'f' then some (c.toNat - 87)
  else if 'A' ≤ c ∧ c ≤ 'F' then some (c.toNat - 55)
  else none

/-- The bytes of a hex text. -/
def hexBytes? : List Char → Option (List UInt8)
  | [] => some []
  | a :: b :: rest => do
    let x ← hexDigit? a
    let y ← hexDigit? b
    let tail ← hexBytes? rest
    pure ((x * 16 + y).toUInt8 :: tail)
  | [_] => none

/-- A byte string from its hex text. -/
def hex? (s : String) : Option ByteArray := (hexBytes? s.toList).map fun bs => ⟨bs.toArray⟩

end StackVm.Read
