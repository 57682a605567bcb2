import StackVm.Interp.Act
import StackVm.Ops.Arith
import StackVm.Ops.Compare

/-! The bookkeeping of call sites.  A site settles, on its first run, on the kind of operands,
the namespace version, the attribute slot or the call target it sees; later runs that match
count as hits and runs that do not count as misses and reopen the site, until too many misses
make it give up.  An operator site that hits computes its result inline, by integer or double
arithmetic, string concatenation or the order of two integers, doubles or strings; the general
operator gives the same value.  A namespace site reads the value it remembers while the
namespace keeps its version.  An attribute site reads the remembered slot of any host object of
the remembered layout. -/

namespace StackVm

namespace Act

/-- The site of the current instruction. -/
@[inline] def site : Act (Option Site) := do
  let (p, pc) ← reads fun f => (f.code.profile, f.instrPc)
  readsMachine fun m => (m.profiles[p]?).bind (·.sites[pc]?)

/-- Replaces the site of the current instruction. -/
@[inline] def setSite (s : Site) : Act Unit := do
  let (p, pc) ← reads fun f => (f.code.profile, f.instrPc)
  modifyMachine fun m =>
    { m with profiles := m.profiles.modify p fun pr => { pr with sites := pr.sites.set! pc s } }

/-- Changes the counters. -/
@[inline] def count (g : Stats → Stats) : Act Unit := modifyMachine fun m => { m with stats := g m.stats }

/-- Whether operator sites may settle. -/
@[inline] def operatorCaching : Act Bool := readsMachine fun m => m.config.specialize && m.fastPaths

/-- The operand kinds a binary operator site settles on. -/
def binaryKind (h : Heap) (op : BinaryOp) (x y : Value) : SiteCache :=
  match x, y with
  | .int _, .int _ => .intInt
  | .float _, .float _ =>
    match op with
    | .and | .or | .xor | .lshift | .rshift => .generic
    | _ => .floatFloat
  | _, _ => if op == .add && (h.asStr? x).isSome && (h.asStr? y).isSome then .strStr else .generic

/-- The operand kinds a comparison site settles on. -/
def compareKind (h : Heap) (x y : Value) : SiteCache :=
  match x, y with
  | .int _, .int _ => .intInt
  | .float _, .float _ => .floatFloat
  | _, _ => if (h.asStr? x).isSome && (h.asStr? y).isSome then .strStr else .generic

/-- Counts a site's guard that held. -/
@[inline] def hit : Act Unit := count fun s => { s with cacheHits := s.cacheHits + 1 }

/-- Records a site's guard that failed. -/
def missAt (s : Site) : Act Unit := do
  setSite s.miss
  count fun st => { st with cacheMisses := st.cacheMisses + 1 }

/-- Settles an open site. -/
def settle (s : Site) (c : SiteCache) : Act Unit := do
  setSite { s with cache := c }
  count fun st => { st with resolvedSites := st.resolvedSites + 1 }

/-- An operator site's run on the guess it holds: a site that gave up counts nothing; otherwise
the run hits when `hits` says the guess applies to the operands, and misses, reopening the site,
when it does not. -/
def operatorGuess (s : Site) (hits : SiteCache → Bool) : Act (Option SiteCache) :=
  if s.isGeneric then pure none
  else if hits s.cache then do
    hit
    pure (some s.cache)
  else do
    missAt s
    pure none

/-- Counts an operator site's run and gives the guess that hit, an open site settling on `kind`
first. -/
def noteOperator (kind : SiteCache) (hits : SiteCache → Bool) : Act (Option SiteCache) := do
  if !(← operatorCaching) then return none
  let some s ← site | return none
  if s.isUnresolved then
    settle s kind
    operatorGuess { s with cache := kind } hits
  else operatorGuess s hits

end Act

/-- What a binary operator site computes inline with its guess, when the operands are of the
guessed kinds: integer arithmetic on two integers, double arithmetic for the operators doubles
have, and the concatenation of two strings, the one operator a string site settles for. -/
def inlineBinary (h : Heap) (op : BinaryOp) : SiteCache → Value → Value → Option (Vm Value)
  | .intInt, .int a, .int b => some (do Vm.num (← Vm.ofExcept (intBinary op a b)))
  | .floatFloat, .float a, .float b => (floatBinary op a b).map fun r => do
    return .float (← Vm.ofExcept r)
  | .strStr, x, y =>
    match h.asStr? x, h.asStr? y with
    | some a, some b => some (Vm.str (a ++ b))
    | _, _ => none
  | _, _, _ => none

/-- A binary operator at its site: inline by the guess that hit where it applies, by the general
operator otherwise. -/
def binaryAt (h : Heap) (op : BinaryOp) (hit : Option SiteCache) (x y : Value) : Vm Value :=
  (hit.bind fun c => inlineBinary h op c x y).getD (Ops.binary op x y)

/-- What a comparison site computes inline with its guess, when the operands are of the guessed
kinds: the order of two integers, of two doubles (a NaN leaving only `!=` true) or of two
strings. -/
def inlineCompare (h : Heap) (op : CompareOp) : SiteCache → Value → Value → Option Bool
  | .intInt, .int a, .int b => some (op.holds (compare a b))
  | .floatFloat, .float a, .float b =>
    some (match Binary64.compareFloat a b with
      | some o => op.holds o
      | none => op == .ne)
  | .strStr, x, y =>
    match h.asStr? x, h.asStr? y with
    | some a, some b => some (op.holds (Heap.strOrder a b))
    | _, _ => none
  | _, _, _ => none

/-- A comparison at its site: inline by the guess that hit where it applies, by the general
comparison otherwise. -/
def compareAt (h : Heap) (op : CompareOp) (hit : Option SiteCache) (x y : Value) :
    Except Raise Bool :=
  match hit.bind fun c => inlineCompare h op c x y with
  | some r => .ok r
  | none => h.compareValues op x y

end StackVm
