import StackVm.Interp.Site
import StackVm.Interp.Kit
import StackVm.Ops.Access

/-! Loop back-edges and compiled loops.  A back-edge jumps to its loop header and counts an
iteration of the loop.  When the loop turns hot it is compiled for the current stack depth;
once compiled it is entered whenever the stack has that depth at the back-edge.  A compiled
loop works on the frame in place: it leaves at a jump out of the loop, or gives the frame back
to the interpreter at an operation whose operands it does not handle (a deoptimization), with
nothing of that operation done yet. -/

namespace StackVm

/-- How control came back from a compiled loop. -/
inductive LoopExit where
  /-- The loop was left; interpretation continues at `pc`. -/
  | leave (pc : Nat)
  /-- An operation's guard failed; the interpreter runs it at `pc`. -/
  | deopt (pc : Nat)
  deriving Inhabited

namespace Act

/-- The step budget of one run of a compiled loop. -/
def loopBudget : Nat := Nat.pow 2 62

/-- Sets the frame's next offset. -/
@[inline] def jumpTo (pc : Nat) : Act Unit := modifyFrame fun f => { f with pc }

/-- Leaves a compiled loop at an offset. -/
def leaveAt (pc : Nat) : Act LoopExit := do jumpTo pc; pure (.leave pc)

/-- Gives the frame back to the interpreter at an offset. -/
def deoptAt (pc : Nat) : Act LoopExit := do jumpTo pc; pure (.deopt pc)

/-- Stores a local slot. -/
@[inline] def storeLocal (slot : Nat) (v : Value) : Act Unit := do
  if slot < (← reads (·.locals.size)) then
    modifyFrame fun f => { f with locals := f.locals.set! slot (some v) }
  else internal "local slot out of range"

/-- Where a compiled loop goes after one of its operations. -/
inductive LoopStep where
  /-- On to the operation at an index. -/
  | next (index : Nat)
  /-- Back to the interpreter. -/
  | exit (e : LoopExit)
  deriving Inhabited

/-- Runs the operation at an index of a compiled loop.  An index past the last operation
leaves at the offset of the last one. -/
def loopStep (c : CompiledLoop) (index : Nat) : Act LoopStep :=
  match c.ops[index]? with
  | none => .exit <$> leaveAt ((c.ops.back?.map (·.1)).getD 0)
  | some (pc, op) =>
    let continueAt (i : Nat) : Act LoopStep := pure (.next i)
    let deopt : Act LoopStep := .exit <$> deoptAt pc
    let go (t : LoopTarget) : Act LoopStep := match t with
      | .inside i => continueAt i
      | .exit p => .exit <$> leaveAt p
    match op with
    | .loadLocal slot => do
      match ← reads fun f => f.locals[slot]? with
      | some (some v) => push v; continueAt (index + 1)
      | _ => deopt
    | .storeLocal slot => do
      let v ← pop
      storeLocal slot v
      continueAt (index + 1)
    | .push v => do push v; continueAt (index + 1)
    | .pop => do let _ ← pop; continueAt (index + 1)
    | .dup => do push (← peek); continueAt (index + 1)
    | .rot2 => do rotate 2; continueAt (index + 1)
    | .nop => continueAt (index + 1)
    | .binary o => do
      match ← peekAt 1, ← peekAt 0 with
      | .int a, .int b =>
        match intBinary o a b with
        | .ok r =>
          let _ ← popN 2
          push (← vm (Vm.num r))
          continueAt (index + 1)
        | .error _ => deopt
      | _, _ => deopt
    | .compare o => do
      match ← peekAt 1, ← peekAt 0 with
      | .int a, .int b =>
        let _ ← popN 2
        push (.bool (o.holds (Ord.compare a b)))
        continueAt (index + 1)
      | _, _ => deopt
    | .not => do
      match ← peek with
      | .bool b => do let _ ← pop; push (.bool !b); continueAt (index + 1)
      | _ => deopt
    | .jump t => go t
    | .jumpIfTrue t | .jumpIfFalse t => do
      match ← peek with
      | .bool b =>
        let _ ← pop
        let onTrue := match op with
          | .jumpIfTrue _ => true
          | _ => false
        if b == onTrue then go t else continueAt (index + 1)
      | _ => deopt
    | .forIter t => do
      let it ← peek
      let h ← heap
      match it, h.deref it with
      | .ref a, some (.iterator state) =>
        let r ← tryCatch (some <$> vm (Ops.iterNext a state)) fun e => do
          modifyFrame fun f => { f with instrPc := pc, pc := pc + Opcode.forIter.width }
          throw e
        match r with
        | some (some item) => push item; continueAt (index + 1)
        | _ => do let _ ← pop; go t
      | _, _ => deopt

/-- Runs a compiled loop from an operation, one operation for each unit of fuel. -/
def runCompiled (c : CompiledLoop) : Nat → Nat → Act LoopExit
  | 0, _ => throw .exhausted
  | fuel + 1, index => do
    match ← loopStep c index with
    | .next i => runCompiled c fuel i
    | .exit e => pure e

/-- The loop record of a back-edge, with a change applied. -/
def updateLoop (header backEdge : Nat) (g : LoopInfo → LoopInfo × α) : Act α := do
  let p ← reads (·.code.profile)
  let pr ← readsMachine fun m => (m.profiles[p]?).getD (Profile.new 0)
  let (pr, i) := pr.loopIndex header backEdge
  let (l, a) := g ((pr.loops[i]?).getD { header, backEdge })
  modifyMachine fun m =>
    { m with profiles := m.profiles.set! p { pr with loops := pr.loops.set! i l } }
  pure a

/-- A back-edge `distance` bytes back: jumps to the loop header, counts the iteration and runs
the compiled loop when there is one for the current stack depth. -/
def backEdge (distance : Nat) : Act Unit := do
  let backEdgePc ← reads (·.instrPc)
  if distance > backEdgePc then internal "backward jump before the start of the code"
  let header := backEdgePc - distance
  jumpTo header
  let some threshold ← readsMachine (·.config.osrThreshold) | return
  let state ← updateLoop header backEdgePc fun l =>
    let (l, s) := l.recordIteration threshold
    (l, s)
  let depth ← reads (·.stack.size)
  let entry : Option CompiledLoop ← match state with
    | .hot => do
      let u ← unit
      let fast ← readsMachine (·.fastPaths)
      match CompiledLoop.compile u header backEdgePc depth fast with
      | .ok c =>
        updateLoop header backEdgePc fun l => (l.markReady, ())
        let p ← reads (·.code.profile)
        modifyMachine fun m => { m with profiles := m.profiles.modify p fun pr =>
          { pr with compiled := pr.compiled.push c } }
        pure (some c)
      | .error _ =>
        updateLoop header backEdgePc fun l => (l.markFailed, ())
        pure none
    | .ready => do
      let p ← reads (·.code.profile)
      readsMachine fun m => (m.profiles[p]?).bind (·.compiledAt header)
    | _ => pure none
  let some c := entry | return
  if c.entryDepth != depth then return
  count fun s => { s with osrEntries := s.osrEntries + 1 }
  match ← runCompiled c loopBudget 0 with
  | .leave _ => pure ()
  | .deopt _ =>
    count fun s => { s with osrDeopts := s.osrDeopts + 1 }
    updateLoop header backEdgePc fun l => (l.recordDeopt, ())

end Act

end StackVm
