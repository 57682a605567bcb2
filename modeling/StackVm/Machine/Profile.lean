import StackVm.Loop.Info
import StackVm.Loop.Compiled

/-! Profiles: what the engine learns about a code unit while running it.  Each instruction
offset has a site that remembers the kind of operands, the namespace version, the attribute
slot or the call target it saw first; a site whose guess keeps failing gives up and always
takes the general path.  Sites only save work: whatever a site remembers, the result of the
instruction is the one the general path computes.  A profile also keeps the loop records of
the unit's back-edges and its compiled loops. -/

namespace StackVm

/-- What a site remembers. -/
inductive SiteCache where
  | unresolved
  /-- An operator site that saw two machine integers. -/
  | intInt
  /-- An operator site that saw two doubles. -/
  | floatFloat
  /-- An operator site that saw two strings. -/
  | strStr
  /-- A global lookup in a namespace at a version, with the value it found. -/
  | global (globals version : Nat) (value : Value)
  /-- An attribute read from a slot of host objects of one layout. -/
  | attr (shape slot : Nat)
  /-- A call site that always called one function with matching arguments. -/
  | call (function : Addr)
  /-- Always take the general path. -/
  | generic
  deriving Inhabited

/-- Guard failures a site tolerates before it gives up. -/
def maxSiteMisses : Nat := 4

/-- A site: what it remembers and how often its guess failed. -/
structure Site where
  cache : SiteCache := .unresolved
  misses : Nat := 0
  deriving Inhabited

namespace Site

/-- Whether the site has not settled on anything yet. -/
def isUnresolved (s : Site) : Bool :=
  match s.cache with
  | .unresolved => true
  | _ => false

/-- Whether the site gave up. -/
def isGeneric (s : Site) : Bool :=
  match s.cache with
  | .generic => true
  | _ => false

/-- Records a failed guess: the site reopens, or gives up after too many. -/
def miss (s : Site) : Site :=
  let misses := min (s.misses + 1) 255
  if misses ≥ maxSiteMisses then { cache := .generic, misses } else { cache := .unresolved, misses }

end Site

/-- The profile of one code unit. -/
structure Profile where
  sites : Array Site
  loops : Array LoopInfo := #[]
  compiled : Array CompiledLoop := #[]
  deriving Inhabited

namespace Profile

/-- A fresh profile for a unit of a given length. -/
def new (len : Nat) : Profile := { sites := Array.replicate len {} }

/-- The loop record of a back-edge, made on first use. -/
def loopIndex (p : Profile) (header backEdge : Nat) : Profile × Nat :=
  match p.loops.findIdx? (·.backEdge == backEdge) with
  | some i => (p, i)
  | none =>
    let i := p.loops.size
    ({ p with loops := p.loops.push { header, backEdge } }, i)

/-- The first compiled loop with a given header. -/
def compiledAt (p : Profile) (header : Nat) : Option CompiledLoop :=
  p.compiled.find? (·.header == header)

end Profile

end StackVm
