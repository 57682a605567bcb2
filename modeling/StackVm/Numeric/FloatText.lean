import StackVm.Numeric.Shortest

/-! The text of a double.  The digits are the shortest ones that read back (`Shortest`); the
layout is fixed by one record, `FloatText.engine`: magnitudes from `1e-4` up to but not including
`1e16`, and zero, are written positionally with at least one fractional digit (`1.0`,
`0.0001`, `1000000000000000.0`); all others in scientific form with a bare exponent (`1e16`,
`1.5e-7`, `-1e22`).  The sign of zero is kept, and NaN and the infinities have names. -/

namespace StackVm.FloatText

open Binary64 Shortest

/-- How a double is laid out as text. -/
structure Style where
  /-- Non-zero magnitudes whose bits are below this are written in scientific form. -/
  lowBits : Nat
  /-- Magnitudes whose bits are at least this are written in scientific form. -/
  highBits : Nat
  /-- Fractional digits always written in positional form. -/
  minFraction : Nat
  /-- The exponent marker of the scientific form. -/
  mark : String
  nanText : String
  infText : String

/-- The layout of the engine's float text: positional between `1e-4` and `1e16`. -/
def engine : Style :=
  { lowBits := roundBits 1 10000, highBits := roundBits (Nat.pow 10 16) 1, minFraction := 1,
    mark := "e", nanText := "nan", infText := "inf" }

/-- `n` zeros. -/
def zeros (n : Nat) : String := String.ofList (List.replicate n '0')

/-- Digits `ds` read as `0.ds × 10^point`, written positionally with at least `minFraction`
fractional digits. -/
def positional (ds : String) (point : Int) (minFraction : Nat) : String :=
  let n := ds.length
  if point ≤ 0 then
    let lead := (-point).toNat
    "0." ++ zeros lead ++ ds ++ zeros (minFraction - (n + lead))
  else
    let p := point.toNat
    if p < n then
      (String.ofList (ds.toList.take p)) ++ "." ++ String.ofList (ds.toList.drop p) ++
        zeros (minFraction - (n - p))
    else
      ds ++ zeros (p - n) ++ (if minFraction > 0 then "." ++ zeros minFraction else "")

/-- Digits `ds` read as `0.ds × 10^point`, written as `d.ddd` and an exponent. -/
def scientific (ds : String) (point : Int) (mark : String) : String :=
  let lead := String.ofList (ds.toList.take 1)
  let rest := String.ofList (ds.toList.drop 1)
  let mantissa := if rest.isEmpty then lead else lead ++ "." ++ rest
  let e := point - 1
  mantissa ++ mark ++ (if e < 0 then "-" ++ Nat.repr (-e).toNat else Nat.repr e.toNat)

/-- The text of a double in a style. -/
def Style.render (s : Style) (f : Float) : String :=
  match decode f with
  | .nan => s.nanText
  | .inf neg => (if neg then "-" else "") ++ s.infText
  | .finite x =>
    let sign := if x.neg then "-" else ""
    if x.mant = 0 then sign ++ positional "0" 1 s.minFraction
    else
      let d := shortest x.mant x.exp
      let ds := Nat.repr d.digits
      let point := d.exp + ds.length
      let bits := f.toBits.toNat % Nat.pow 2 63
      if bits < s.lowBits ∨ bits ≥ s.highBits then sign ++ scientific ds point s.mark
      else sign ++ positional ds point s.minFraction

/-- The engine's text of a double. -/
def render (f : Float) : String := engine.render f

end StackVm.FloatText
