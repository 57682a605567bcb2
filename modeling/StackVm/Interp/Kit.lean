import StackVm.Interp.Act

/-! The operations an instruction may need from the rest of the engine: calling a value,
running a function on arguments already bound, and advancing an iterator.  The engine hands
each activation the versions one nesting level down, so that every chain of nested calls
uses up a finite budget. -/

namespace StackVm

/-- How an activation is entered. -/
inductive Resume where
  /-- From the first instruction. -/
  | start
  /-- At a suspension point, which evaluates to the value sent. -/
  | send (v : Value)
  /-- At a suspension point, which raises the exception thrown in. -/
  | throw (exc : Addr)
  deriving Inhabited

/-- How an activation left its instruction loop without failing. -/
inductive FrameExit where
  | ret (v : Value)
  | yield (v : Value)
  deriving Inhabited

/-- How a resumed generator stopped. -/
inductive GenStep where
  | yielded (v : Value)
  | returned (v : Value)
  deriving Inhabited

/-- The result of one instruction. -/
inductive StepResult where
  | next
  | exit (e : FrameExit)
  deriving Inhabited

/-- The operations of the engine one nesting level down. -/
structure Kit where
  /-- Calls any callable value. -/
  call : Value → Array Value → Vm Value
  /-- Runs the function at an address on arguments that need no binding. -/
  run : Addr → Array Value → Vm Value
  /-- Advances an iterator or generator; `none` once it is exhausted. -/
  next : Value → Vm (Option Value)

/-- The kit of an exhausted budget: every operation fails. -/
def Kit.exhausted : Kit where
  call _ _ := throw .exhausted
  run _ _ := throw .exhausted
  next _ := throw .exhausted

end StackVm
