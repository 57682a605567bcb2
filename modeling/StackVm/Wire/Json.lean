import StackVm.Wire.Doc
import StackVm.Numeric.Binary64
import StackVm.Numeric.FloatText

/-! Request lines as documents, and answers as lines.

A line holds one JSON value, with blanks (space, tab, newline, carriage return) around it and
between its tokens.  Objects keep the last value given for a key.  Strings take the usual
escapes; `\u` escapes name UTF-16 units, where a surrogate pair stands for one character and a
lone surrogate is an error.

Numbers are read the way the protocol's reader reads them, which is not always the nearest
double.  A number written without fraction or exponent is an integer when it fits: up to
`2^64 - 1` when it is non-negative, down to `-2^63` when it is negative.  Any other number is a
double, computed from the leading decimal digits that fit in 64 bits (the significand) and a
decimal exponent: the significand is rounded to a double and then multiplied or divided by the
double nearest to the power of ten, so the result may be one unit away from the double nearest
to the written number.  Written as an integer, `-0` is the double minus zero, and a negative
integer below `-2^63` is a double too.

Answers are written back with strings escaped and doubles in their shortest form. -/

namespace StackVm.Json

/-- Whether a character may stand between tokens. -/
def isBlank (c : Char) : Bool := c == ' ' || c == '\n' || c == '\t' || c == '\r'

/-- The text after the blanks at its start. -/
def skipBlank (cs : List Char) : List Char := cs.dropWhile isBlank

/-- A reading result: what was read and the text after it. -/
abbrev Reading (α : Type) := Except String (α × List Char)

/-- Continues with what a reading read and the text after it. -/
@[inline] def Reading.next {α β : Type} (r : Reading α) (k : α → List Char → Reading β) :
    Reading β :=
  match r with
  | .ok (a, rest) => k a rest
  | .error e => .error e

/-! ### Numbers -/

/-- The largest significand, `2^64 - 1`. -/
def sigMax : Nat := Nat.pow 2 64 - 1

/-- Whether appending the digit `d` would carry the significand past `sigMax`. -/
def sigFull (sig d : Nat) : Bool :=
  sig ≥ sigMax / 10 && (sig > sigMax / 10 || d > sigMax % 10)

/-- The largest decimal exponent, `2^31 - 1`. -/
def expMax : Nat := Nat.pow 2 31 - 1

/-- Whether appending the digit `d` would carry the exponent past `expMax`. -/
def expFull (e d : Nat) : Bool :=
  e ≥ expMax / 10 && (e > expMax / 10 || d > expMax % 10)

/-- An exponent held to the 32-bit range. -/
def clampExp (e : Int) : Int := max (-Int.pow 2 31) (min e (Int.pow 2 31 - 1))

/-- The double nearest to `10^k`, for `k` up to 308. -/
def tenPow? (k : Nat) : Option Float :=
  if k ≤ 308 then some (Binary64.ofDecimal false 1 k) else none

/-- Scales a double by `10^e` in double arithmetic.  An exponent outside the table first
divides by `1e308` until it comes in range or the value is zero; a positive exponent outside
the table, or a product that overflows, is out of range.  The value starts below `2^64`, so it
is zero after two divisions by `1e308`, and the steps given are never all used. -/
def scale : Nat → Float → Int → Except String Float
  | 0, f, _ => .ok f
  | steps + 1, f, e =>
    match tenPow? e.natAbs with
    | some p =>
      if e ≥ 0 then
        let g := f * p
        if g.isInf then .error "number out of range" else .ok g
      else .ok (f / p)
    | none =>
      if f == 0 then .ok f
      else if e ≥ 0 then .error "number out of range"
      else scale steps (f / Binary64.ofDecimal false 1 308) (e + 308)

/-- The double of `±sig · 10^e`, the way the reader computes it. -/
def fromParts (neg : Bool) (sig : Nat) (e : Int) : Except String Float := do
  let f ← scale 4 (Binary64.ofInt sig) e
  pure (if neg then -f else f)

/-- A double as a number document. -/
def floatDoc (neg : Bool) (sig : Nat) (e : Int) (rest : List Char) : Reading Doc :=
  match fromParts neg sig e with
  | .ok f => .ok (.float f, rest)
  | .error msg => .error msg

/-- The text after the digits at its start. -/
def dropDigits (cs : List Char) : List Char := cs.dropWhile Char.isDigit

/-- Reads the digits of an exponent, then finishes the number.  An exponent past 32 bits gives
zero when it is negative or the significand is zero, and is out of range otherwise. -/
def expDigits (neg : Bool) (sig : Nat) (start : Int) (positive : Bool) (e : Nat) :
    List Char → Reading Doc
  | c :: rest =>
    if c.isDigit then
      let d := c.toNat - 48
      if expFull e d then
        if sig != 0 && positive then .error "number out of range"
        else .ok (.float (Binary64.zero neg), dropDigits rest)
      else expDigits neg sig start positive (e * 10 + d) rest
    else
      floatDoc neg sig (clampExp (if positive then start + e else start - e)) (c :: rest)
  | [] => floatDoc neg sig (clampExp (if positive then start + e else start - e)) []

/-- Reads an exponent after its `e`: an optional sign and at least one digit. -/
def exponent (neg : Bool) (sig : Nat) (start : Int) (cs : List Char) : Reading Doc :=
  let (positive, cs) := match cs with
    | '+' :: rest => (true, rest)
    | '-' :: rest => (false, rest)
    | cs => (true, cs)
  match cs with
  | c :: rest =>
    if c.isDigit then expDigits neg sig start positive (c.toNat - 48) rest
    else .error "invalid number"
  | [] => .error "end of input in a number"

/-- Finishes a number after its digits: an exponent, or the double of its parts. -/
def finish (neg : Bool) (sig : Nat) (e : Int) : List Char → Reading Doc
  | 'e' :: rest | 'E' :: rest => exponent neg sig e rest
  | cs => floatDoc neg sig e cs

/-- Reads the digits of a fraction, `after` of them so far; a digit that would carry the
significand past 64 bits ends the significand, and the digits after it are skipped. -/
def fraction (neg : Bool) (before : Int) (sig : Nat) (after : Nat) : List Char → Reading Doc
  | c :: rest =>
    if c.isDigit then
      let d := c.toNat - 48
      if sigFull sig d then finish neg sig (before - after) (dropDigits rest)
      else fraction neg before (sig * 10 + d) (after + 1) rest
    else if after = 0 then .error "invalid number"
    else finish neg sig (before - after) (c :: rest)
  | [] => if after = 0 then .error "end of input in a number" else finish neg sig (before - after) []

/-- Reads what follows the integer digits of a double: each further digit raises the exponent
by one, then a fraction or an exponent may follow. -/
def longInteger (neg : Bool) (sig : Nat) (e : Nat) : List Char → Reading Doc
  | c :: rest =>
    if c.isDigit then longInteger neg sig (e + 1) rest
    else if c = '.' then fraction neg e sig 0 rest
    else finish neg sig e (c :: rest)
  | [] => finish neg sig e []

/-- A number written as an integer: an integer when it fits, a double otherwise. -/
def integerDoc (neg : Bool) (sig : Nat) : Doc :=
  if !neg then .int sig
  else if sig = 0 then .float (Binary64.zero true)
  else if sig ≤ Nat.pow 2 63 then .int (-(sig : Int))
  else .float (-(Binary64.ofInt sig))

/-- Reads what follows the integer digits: a fraction, an exponent, or nothing. -/
def afterInteger (neg : Bool) (sig : Nat) : List Char → Reading Doc
  | '.' :: rest => fraction neg 0 sig 0 rest
  | 'e' :: rest | 'E' :: rest => exponent neg sig 0 rest
  | cs => .ok (integerDoc neg sig, cs)

/-- Reads integer digits into the significand while it fits in 64 bits. -/
def integerDigits (neg : Bool) (sig : Nat) : List Char → Reading Doc
  | c :: rest =>
    if c.isDigit then
      let d := c.toNat - 48
      if sigFull sig d then longInteger neg sig 0 (c :: rest)
      else integerDigits neg (sig * 10 + d) rest
    else afterInteger neg sig (c :: rest)
  | [] => afterInteger neg sig []

/-- Reads a number, its sign already taken: a lone `0` or digits not starting with `0`. -/
def readNumber (neg : Bool) : List Char → Reading Doc
  | '0' :: rest =>
    match rest with
    | c :: _ => if c.isDigit then .error "invalid number" else afterInteger neg 0 rest
    | [] => afterInteger neg 0 rest
  | c :: rest =>
    if c.isDigit then integerDigits neg (c.toNat - 48) rest else .error "invalid number"
  | [] => .error "end of input in a number"

/-! ### Strings -/

/-- The value of four hex digits. -/
def hex4? (a b c d : Char) : Option Nat := do
  let w ← hexDigit? a
  let x ← hexDigit? b
  let y ← hexDigit? c
  let z ← hexDigit? d
  pure (((w * 16 + x) * 16 + y) * 16 + z)
where
  hexDigit? (c : Char) : Option Nat :=
    if c.isDigit then some (c.toNat - 48)
    else if 'a' ≤ c ∧ c ≤ 'f' then some (c.toNat - 87)
    else if 'A' ≤ c ∧ c ≤ 'F' then some (c.toNat - 55)
    else none

/-- Reads the characters of a string up to its closing quote. -/
def stringBody (acc : String) : List Char → Reading String
  | '"' :: rest => .ok (acc, rest)
  | '\\' :: 'u' :: a :: b :: c :: d :: rest =>
    match hex4? a b c d with
    | none => .error "invalid escape"
    | some n =>
      if 0xDC00 ≤ n ∧ n ≤ 0xDFFF then .error "lone surrogate in escape"
      else if 0xD800 ≤ n ∧ n ≤ 0xDBFF then
        match rest with
        | '\\' :: 'u' :: e :: f :: g :: h :: more =>
          match hex4? e f g h with
          | none => .error "invalid escape"
          | some m =>
            if 0xDC00 ≤ m ∧ m ≤ 0xDFFF then
              stringBody (acc.push (Char.ofNat ((n - 0xD800) * 1024 + (m - 0xDC00) + 0x10000))) more
            else .error "lone surrogate in escape"
        | _ => .error "unexpected end of escape"
      else stringBody (acc.push (Char.ofNat n)) rest
  | '\\' :: c :: rest =>
    let esc : Option Char := match c with
      | '"' => some '"'
      | '\\' => some '\\'
      | '/' => some '/'
      | 'b' => some (Char.ofNat 8)
      | 'f' => some (Char.ofNat 12)
      | 'n' => some '\n'
      | 'r' => some '\r'
      | 't' => some '\t'
      | _ => none
    match esc with
    | some e => stringBody (acc.push e) rest
    | none => .error "invalid escape"
  | c :: rest =>
    if c.toNat < 0x20 then .error "control character in a string"
    else stringBody (acc.push c) rest
  | [] => .error "end of input in a string"

/-! ### Values -/

/-- Sets a field of an object, replacing an earlier value of the same key. -/
def setField (fs : Array (String × Doc)) (k : String) (v : Doc) : Array (String × Doc) :=
  match fs.findIdx? (·.1 == k) with
  | some i => fs.set! i (k, v)
  | none => fs.push (k, v)

/-- Whether a text starts with a word. -/
def startsWith (cs : List Char) (w : String) : Bool := w.toList.isPrefixOf cs

mutual

/-- Reads a value after the blanks before it. -/
def value : Nat → List Char → Reading Doc
  | 0, _ => .error "nesting too deep"
  | fuel + 1, cs =>
    match skipBlank cs with
    | '\x7b' :: rest => fields fuel #[] true rest
    | '[' :: rest => items fuel #[] true rest
    | '"' :: rest => (stringBody "" rest).next fun s rest => .ok (.str s, rest)
    | '-' :: rest => readNumber true rest
    | cs@(c :: _) =>
      if c.isDigit then readNumber false cs
      else if startsWith cs "null" then .ok (.null, cs.drop 4)
      else if startsWith cs "true" then .ok (.bool true, cs.drop 4)
      else if startsWith cs "false" then .ok (.bool false, cs.drop 5)
      else .error "expected a value"
    | [] => .error "end of input while reading a value"

/-- Reads the items of an array after its `[`, the first one next when `first` holds. -/
def items : Nat → Array Doc → Bool → List Char → Reading Doc
  | 0, _, _, _ => .error "nesting too deep"
  | fuel + 1, acc, first, cs =>
    match skipBlank cs with
    | ']' :: rest => .ok (.arr acc, rest)
    | cs =>
      let next : Except String (List Char) :=
        if first then .ok cs
        else match cs with
          | ',' :: rest => match skipBlank rest with
            | ']' :: _ => .error "trailing comma"
            | _ => .ok rest
          | _ => .error "expected a comma or the end of an array"
      match next with
      | .error e => .error e
      | .ok cs => (value fuel cs).next fun v rest => items fuel (acc.push v) false rest

/-- Reads the fields of an object after its `{`, the first one next when `first` holds. -/
def fields : Nat → Array (String × Doc) → Bool → List Char → Reading Doc
  | 0, _, _, _ => .error "nesting too deep"
  | fuel + 1, acc, first, cs =>
    match skipBlank cs with
    | '\x7d' :: rest => .ok (.obj acc, rest)
    | cs =>
      let next : Except String (List Char) :=
        if first then .ok cs
        else match cs with
          | ',' :: rest => match skipBlank rest with
            | '\x7d' :: _ => .error "trailing comma"
            | _ => .ok rest
          | _ => .error "expected a comma or the end of an object"
      match next with
      | .error e => .error e
      | .ok cs =>
        match skipBlank cs with
        | '"' :: rest =>
          (stringBody "" rest).next fun k rest =>
            match skipBlank rest with
            | ':' :: rest =>
              (value fuel rest).next fun v rest => fields fuel (setField acc k v) false rest
            | _ => .error "expected a colon"
        | _ => .error "expected a key"

end

/-- Reads a line holding one value.  Every step of the reader consumes a character or ends, and
each character costs at most two steps, so twice the length of the line is enough. -/
def read (line : String) : Except String Doc := do
  let cs := line.toList
  let (v, rest) ← value (2 * cs.length + 2) cs
  match skipBlank rest with
  | [] => pure v
  | _ => throw "trailing characters"

/-! ### Writing -/

/-- The lowercase hex digit of a number below 16. -/
def hexChar (n : Nat) : Char := if n < 10 then Char.ofNat (48 + n) else Char.ofNat (87 + n)

/-- The escaped text of one character in a string. -/
def escape (c : Char) : String :=
  if c = '"' then "\\\""
  else if c = '\\' then "\\\\"
  else if c = '\n' then "\\n"
  else if c = '\r' then "\\r"
  else if c = '\t' then "\\t"
  else if c.toNat = 8 then "\\b"
  else if c.toNat = 12 then "\\f"
  else if c.toNat < 0x20 then
    "\\u00" ++ (hexChar (c.toNat / 16)).toString ++ (hexChar (c.toNat % 16)).toString
  else c.toString

/-- The quoted text of a string. -/
def quote (s : String) : String := "\"" ++ String.join (s.toList.map escape) ++ "\""

/-- The text of a document, nested at most `fuel` deep; a double that is not finite is
written as null. -/
def render : Nat → Doc → String
  | 0, _ => "null"
  | fuel + 1, d =>
    match d with
    | .null => "null"
    | .bool b => if b then "true" else "false"
    | .int i => toString i
    | .float f => if f.isNaN || f.isInf then "null" else FloatText.render f
    | .str s => quote s
    | .arr xs => "[" ++ ",".intercalate (xs.toList.map (render fuel)) ++ "]"
    | .obj fs =>
      "\x7b" ++ ",".intercalate (fs.toList.map fun (k, v) => quote k ++ ":" ++ render fuel v) ++
        "\x7d"

/-- The depth budget of a written answer. -/
def renderDepth : Nat := 1000000

/-- The line of a document. -/
def write (d : Doc) : String := render renderDepth d

end StackVm.Json
