import StackVm.Interp.Chain

/-! Functions and their activations.  A function closes over exactly one cell per free
variable of its code unit and has at most as many defaults as parameters.  Binding arguments
fills the parameters in order, takes missing trailing ones from the defaults, and gathers
surplus ones into a tuple when the unit accepts them; any other count is a `TypeError` that
names the function.  A new activation gets its arguments in its first local slots, a fresh cell
per cell variable (holding the argument when the cell captures a parameter), and then the
function's closure cells.  Activations nest up to the configured depth. -/

namespace StackVm

namespace Vm

/-- The code object at an address. -/
def codeObj (a : Addr) : Vm CodeObj := do
  match ← obj a with
  | .code c => pure c
  | _ => internal "not a code unit"

/-- The function at an address. -/
def function (a : Addr) : Vm Function := do
  match ← obj a with
  | .function f => pure f
  | _ => internal "not a function"

/-- Makes a function, checking its closure and defaults against its code unit. -/
def newFunction (code globals : Addr) (defaults : Array Value) (closure : Array Addr) :
    Vm Addr := do
  let c ← codeObj code
  let u := c.unit
  if closure.size != u.freeNames.size then
    throw (.internal (.closureMismatch u.name u.freeNames.size closure.size))
  if defaults.size > u.argCount then
    raiseMsg .typeError s!"{u.name}() has more defaults than parameters"
  alloc (.function { code, globals, defaults, closure })

/-- `'a', 'b' and 'c'`: quoted names, the last joined with `and`. -/
def quotedNames (ns : List String) : String :=
  let qs := ns.map fun n => "'" ++ n ++ "'"
  match qs.reverse with
  | [] => ""
  | [one] => one
  | last :: rest => ", ".intercalate rest.reverse ++ " and " ++ last

/-- `s` unless the count is one. -/
def plural (n : Nat) : String := if n = 1 then "" else "s"

/-- Binds call arguments to a function's parameters. -/
def bind (fn : Function) (args : Array Value) : Vm (Array Value) := do
  let u := (← codeObj fn.code).unit
  let params := u.argCount
  let varargs := u.flags.hasVarargs
  let given := args.size
  let (args, extra) ←
    if given > params then
      if !varargs then
        let verb := if given = 1 then "was" else "were"
        raiseMsg .typeError
          s!"{u.name}() takes {params} positional argument{plural params} but {given} {verb} given"
      else pure (args.extract 0 params, args.extract params given)
    else pure (args, #[])
  let args ←
    if args.size < params then do
      let firstDefault := params - fn.defaults.size
      if args.size < firstDefault then
        let missing := (u.localNames.extract args.size firstDefault).toList
        raiseMsg .typeError
          (s!"{u.name}() missing {missing.length} required positional argument" ++
            s!"{plural missing.length}: {quotedNames missing}")
      let skip := args.size - firstDefault
      pure (args ++ fn.defaults.extract skip fn.defaults.size)
    else pure args
  if varargs then return args.push (← tuple extra) else pure args

/-- A fresh activation of a function on bound arguments. -/
def newFrame (fnAddr : Addr) (args : Array Value) : Vm Frame := do
  let fn ← function fnAddr
  let c ← codeObj fn.code
  let u := c.unit
  if args.size > u.localNames.size then internal "more arguments than local slots"
  let locals : Array (Option Value) :=
    (args.map some) ++ Array.replicate (u.localNames.size - args.size) none
  let mut cells : Array Addr := #[]
  for _ in u.cellNames do
    cells := cells.push (← alloc (.cell none))
  for (cell, param) in u.cellArgs do
    match cells[cell]?, locals[param]? with
    | some a, some (some v) => modifyObj a (Obj.mapCell fun _ => some v)
    | _, _ => pure ()
  pure { code := c, codeRef := fn.code, globals := fn.globals, locals,
         derefs := cells ++ fn.closure }

/-- Counts one more activation, failing with `RecursionError` at the limit. -/
def enterActivation : Vm Unit := do
  let m ← get
  if m.depth ≥ m.config.maxDepth then raise Raise.recursion
  set { m with depth := m.depth + 1 }

/-- Counts one activation less. -/
def leaveActivation : Vm Unit := modify fun m => { m with depth := m.depth - 1 }

end Vm

end StackVm
