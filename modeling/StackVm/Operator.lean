/-! The operators of the language: binary arithmetic and bitwise operators, unary operators and
rich comparisons.  Each has a name, by which requests refer to it, and a symbol, by which error
messages refer to it. -/

namespace StackVm

/-- Binary operators. -/
inductive BinaryOp where
  | add | sub | mul | div | floorDiv | mod | pow | and | or | xor | lshift | rshift
  deriving DecidableEq, Repr, Inhabited

namespace BinaryOp

/-- Every binary operator. -/
def all : List BinaryOp := [add, sub, mul, div, floorDiv, mod, pow, and, or, xor, lshift, rshift]

/-- The operator's name. -/
def name : BinaryOp → String
  | add => "Add" | sub => "Sub" | mul => "Mul" | div => "Div" | floorDiv => "FloorDiv"
  | mod => "Mod" | pow => "Pow" | and => "And" | or => "Or" | xor => "Xor"
  | lshift => "LShift" | rshift => "RShift"

/-- The symbol error messages use for the operator. -/
def symbol : BinaryOp → String
  | add => "+" | sub => "-" | mul => "*" | div => "/" | floorDiv => "//" | mod => "%"
  | pow => "** or pow()" | and => "&" | or => "|" | xor => "^" | lshift => "<<" | rshift => ">>"

/-- The operator with a given name. -/
def ofName? (s : String) : Option BinaryOp := all.find? (·.name == s)

end BinaryOp

/-- Unary operators. -/
inductive UnaryOp where
  | not | neg | pos | invert
  deriving DecidableEq, Repr, Inhabited

namespace UnaryOp

/-- Every unary operator. -/
def all : List UnaryOp := [not, neg, pos, invert]

/-- The operator's name. -/
def name : UnaryOp → String
  | not => "Not" | neg => "Neg" | pos => "Pos" | invert => "Invert"

/-- The symbol error messages use for the operator. -/
def symbol : UnaryOp → String
  | not => "not" | neg => "-" | pos => "+" | invert => "~"

/-- The operator with a given name. -/
def ofName? (s : String) : Option UnaryOp := all.find? (·.name == s)

end UnaryOp

/-- Rich comparison operators. -/
inductive CompareOp where
  | eq | ne | lt | le | gt | ge
  deriving DecidableEq, Repr, Inhabited

namespace CompareOp

/-- Every comparison operator. -/
def all : List CompareOp := [eq, ne, lt, le, gt, ge]

/-- The operator's name. -/
def name : CompareOp → String
  | eq => "Eq" | ne => "Ne" | lt => "Lt" | le => "Le" | gt => "Gt" | ge => "Ge"

/-- The symbol error messages use for the operator. -/
def symbol : CompareOp → String
  | eq => "==" | ne => "!=" | lt => "<" | le => "<=" | gt => ">" | ge => ">="

/-- The operator with a given name. -/
def ofName? (s : String) : Option CompareOp := all.find? (·.name == s)

/-- Whether an ordering satisfies the operator. -/
def holds : CompareOp → Ordering → Bool
  | eq, o => o == .eq
  | ne, o => o != .eq
  | lt, o => o == .lt
  | le, o => o != .gt
  | gt, o => o == .gt
  | ge, o => o != .lt

end CompareOp

end StackVm
