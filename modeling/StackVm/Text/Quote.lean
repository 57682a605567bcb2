/-! Quoted text of strings and byte strings.  A string is quoted with single quotes unless it
contains a single quote and no double quote; backslash, newline, carriage return, tab and the
chosen quote are escaped, every other character stands for itself.  A byte string is written
`b'…'`: printable ASCII stands for itself, backslash, the single quote, newline, carriage return
and tab are escaped, and every other byte is written as `\x` and two lowercase hex digits. -/

namespace StackVm.Quote

/-- The escaped text of one character inside a string quoted with `quote`. -/
def escapeChar (quote : Char) (c : Char) : String :=
  if c = '\\' then "\\\\"
  else if c = '\n' then "\\n"
  else if c = '\r' then "\\r"
  else if c = '\t' then "\\t"
  else if c = quote then "\\" ++ c.toString
  else c.toString

/-- The quote a string is written with. -/
def quoteFor (s : String) : Char :=
  if s.contains '\'' && !s.contains '"' then '"' else '\''

/-- The quoted text of a string. -/
def string (s : String) : String :=
  let q := quoteFor s
  q.toString ++ String.join (s.toList.map (escapeChar q)) ++ q.toString

/-- The lowercase hex digit of a number below 16. -/
def hexDigit (n : Nat) : Char :=
  if n < 10 then Char.ofNat (48 + n) else Char.ofNat (87 + n)

/-- The escaped text of one byte inside a quoted byte string. -/
def escapeByte (b : UInt8) : String :=
  let n := b.toNat
  if n = 92 then "\\\\"
  else if n = 39 then "\\'"
  else if n = 10 then "\\n"
  else if n = 13 then "\\r"
  else if n = 9 then "\\t"
  else if 32 ≤ n ∧ n ≤ 126 then (Char.ofNat n).toString
  else "\\x" ++ (hexDigit (n / 16)).toString ++ (hexDigit (n % 16)).toString

/-- The quoted text of a byte string. -/
def bytes (b : ByteArray) : String :=
  "b'" ++ String.join (b.toList.map escapeByte) ++ "'"

end StackVm.Quote
