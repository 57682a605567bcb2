/-! Loop profiles.  Every back-edge counts the iterations of its loop.  A loop is cold before
its first iteration, warming below the threshold, and hot once its count reaches it; a hot
loop is compiled, after which it is ready (entered on later back-edges) or failed (never
compiled again).  A ready loop that leaves its compiled form on a failed guard too often
fails as well. -/

namespace StackVm

/-- The state of a loop. -/
inductive LoopState where
  | cold
  | warming
  | hot
  | ready
  | failed
  deriving DecidableEq, Repr, Inhabited

namespace LoopState

/-- The state's name. -/
def name : LoopState → String
  | cold => "Cold" | warming => "Warming" | hot => "Hot" | ready => "Ready" | failed => "Failed"

/-- Whether the loop should be compiled now. -/
def shouldCompile (s : LoopState) : Bool := s == hot

/-- Whether the loop's compiled form may be entered. -/
def canEnter (s : LoopState) : Bool := s == ready

end LoopState

/-- Guard failures tolerated before a compiled loop is abandoned. -/
def maxLoopDeopts : Nat := 8

/-- The profile of one loop, keyed by its back-edge. -/
structure LoopInfo where
  header : Nat
  backEdge : Nat
  trips : Nat := 0
  deopts : Nat := 0
  state : LoopState := .cold
  deriving Inhabited

namespace LoopInfo

/-- The largest count kept; counts stop there. -/
def maxCount : Nat := Nat.pow 2 64 - 1

/-- Counts an iteration and returns the new state. -/
def recordIteration (l : LoopInfo) (threshold : Nat) : LoopInfo × LoopState :=
  let trips := min (l.trips + 1) maxCount
  let state := match l.state with
    | .cold | .warming => if trips ≥ threshold then LoopState.hot else .warming
    | s => s
  ({ l with trips, state }, state)

/-- Marks the loop compiled. -/
def markReady (l : LoopInfo) : LoopInfo := { l with state := .ready }

/-- Marks the loop as never to be compiled. -/
def markFailed (l : LoopInfo) : LoopInfo := { l with state := .failed }

/-- Counts a guard failure of the compiled loop. -/
def recordDeopt (l : LoopInfo) : LoopInfo :=
  let deopts := min (l.deopts + 1) (Nat.pow 2 32 - 1)
  let l := { l with deopts }
  if deopts ≥ maxLoopDeopts then l.markFailed else l

end LoopInfo

end StackVm
