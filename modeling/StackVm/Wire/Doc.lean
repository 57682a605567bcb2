/-! Documents: the tree form of requests and answers.  A document is null, a boolean, an
integer, a double, a string, an array or an object with named fields.  A number in a request is
an integer only when it is written as one and fits in 64 bits; every other number is a double
(see `Json.readNumber`). -/

namespace StackVm

/-- A document. -/
inductive Doc where
  | null
  | bool (b : Bool)
  | int (i : Int)
  | float (f : Float)
  | str (s : String)
  | arr (items : Array Doc)
  | obj (fields : Array (String × Doc))
  deriving Inhabited

namespace Doc

/-- A natural number document. -/
def nat (n : Nat) : Doc := int n

/-- An object document from a list of fields. -/
def record (fields : List (String × Doc)) : Doc := obj fields.toArray

/-- An array document from a list. -/
def list (items : List Doc) : Doc := arr items.toArray

/-- The field of an object. -/
def field? : Doc → String → Option Doc
  | obj fs, k => (fs.find? (·.1 == k)).map (·.2)
  | _, _ => none

/-- The fields of an object. -/
def fields : Doc → Array (String × Doc)
  | obj fs => fs
  | _ => #[]

/-- The items of an array. -/
def items? : Doc → Option (Array Doc)
  | arr xs => some xs
  | _ => none

/-- The text of a string. -/
def str? : Doc → Option String
  | str s => some s
  | _ => none

/-- The integer a number stands for, if it is one. -/
def int? : Doc → Option Int
  | int i => some i
  | _ => none

/-- The natural number a number stands for, if it is one. -/
def nat? (d : Doc) : Option Nat :=
  d.int?.bind fun i => if i ≥ 0 then some i.toNat else none

/-- The boolean of a document. -/
def bool? : Doc → Option Bool
  | bool b => some b
  | _ => none

/-- Whether the document is null. -/
def isNull : Doc → Bool
  | null => true
  | _ => false

end Doc

end StackVm
