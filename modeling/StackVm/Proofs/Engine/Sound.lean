import StackVm.Proofs.Engine.Chain
import StackVm.Interp.Run

/-! The invariant of the machine.  A sound machine has coherent generators whose parked frames
run code of the store, an acyclic exception chain whose links lead to exceptions, code objects
whose profiles are their own, and sites whose remembered guesses are right: a namespace read
remembers the value a lookup finds while the namespace keeps its version, an attribute read
remembers the slot every host object of its layout gives the name, and a call remembers a
function that runs on the call's arguments without binding.  The last holds only when host
objects of one layout agree on their slots (`Heap.HostsCoherent`), which the engine cannot check.

`Machine.erase` is the machine as it would be had it never specialized: specialization off,
every site unresolved and the counters of sites at zero. -/

namespace StackVm

namespace Frame

/-- A frame runs the code object at its code address, and the exceptions it handles or
inherits are exceptions. -/
structure Sound (h : Heap) (f : Frame) : Prop where
  code : h.get? f.codeRef = some (.code f.code)
  handled : ∀ hd ∈ f.handled, h.IsExc hd.exc
  inherited : ∀ a, f.inherited = some a → h.IsExc a

theorem Sound.evolves {h h' : Heap} {f : Frame} (hf : f.Sound h) (he : h.Evolves h') :
    f.Sound h' :=
  ⟨he.code.2 hf.code, fun hd m => he.isExc (hf.handled hd m),
    fun a ha => he.isExc (hf.inherited a ha)⟩

end Frame

namespace Heap

/-- The store's facts: coherent generators with sound parked frames, and a sound chain. -/
structure WF (h : Heap) : Prop where
  generators : ∀ a g, h.get? a = some (.generator g) → g.Coherent
  parked : ∀ a g f, h.get? a = some (.generator g) → g.frame = some f → f.Sound h
  chain : h.ChainSound

/-- Host objects that report one layout give every name one slot. -/
def HostsCoherent (h : Heap) : Prop :=
  ∀ a b p q s, h.get? a = some (.object p) → h.get? b = some (.object q) →
    p.shape = some s → q.shape = some s → ∀ n, p.slotOf n = q.slotOf n

theorem HostsCoherent.evolves {h h' : Heap} (hc : h.HostsCoherent) (he : h.Evolves h') :
    h'.HostsCoherent := by
  intro a b p' q' s hp' hq' hsp hsq n
  obtain ⟨p, hp, hps, hpn⟩ := he.object hp'
  obtain ⟨q, hq, hqs, hqn⟩ := he.object hq'
  have := hc a b p q s hp hq (hps ▸ hsp) (hqs ▸ hsq) n
  simpa only [HostObject.slotOf, hpn, hqn] using this

theorem HostsCoherent.of_evolves {h h' : Heap} (hc : h'.HostsCoherent) (he : h.Evolves h') :
    h.HostsCoherent := by
  intro a b p q s hp hq hsp hsq n
  obtain ⟨p', hp', hps, hpn⟩ := he.host hp
  obtain ⟨q', hq', hqs, hqn⟩ := he.host hq
  have := hc a b p' q' s hp' hq' (hps.trans hsp) (hqs.trans hsq) n
  simpa only [HostObject.slotOf, hpn, hqn] using this

/-- A store whose generators are old ones or new coherent ones with sound parked frames, and
whose chain is sound, keeps the store's facts. -/
theorem WF.of_evolves {h h' : Heap} (hwf : h.WF) (he : h.Evolves h')
    (hgen : ∀ a g', h'.get? a = some (.generator g') → h.get? a = some (.generator g') ∨
      (g'.Coherent ∧ ∀ f, g'.frame = some f → f.Sound h'))
    (hc : h'.ChainSound) : h'.WF where
  generators a g hg := by
    rcases hgen a g hg with hg | ⟨hco, -⟩
    · exact hwf.generators a g hg
    · exact hco
  parked a g f hg hf := by
    rcases hgen a g hg with hg | ⟨-, hfr⟩
    · exact (hwf.parked a g f hg hf).evolves he
    · exact hfr f hf
  chain := hc

end Heap

namespace CodeUnit

/-- The name operand of the instruction at an offset. -/
def nameAt (u : CodeUnit) (pc : Nat) : String := (u.names[u.u16At (pc + 1)]?).getD ""

/-- The argument count of the call instruction at an offset. -/
def argcAt (u : CodeUnit) (pc : Nat) : Nat :=
  match Opcode.ofByte? (u.byteAt pc) with
  | some (.callArgs n) => n.val
  | _ => u.byteAt (pc + 1)

/-- A unit whose functions run on `argc` arguments as they are: it takes exactly `argc`, gathers
no surplus and does not suspend. -/
structure Direct (u : CodeUnit) (argc : Nat) : Prop where
  varargs : u.flags.hasVarargs = false
  argCount : u.argCount = argc
  generatorKind : u.generatorKind = none

end CodeUnit

/-- A name in a namespace, else among the builtins. -/
def Globals.resolve (g : Globals) (builtins : Array (String × Value)) (n : String) :
    Option Value :=
  match g.get? n with
  | some v => some v
  | none => assocGet? builtins n

namespace Machine

/-- The site of an offset in a profile. -/
def siteAt (m : Machine) (p pc : Nat) : Option Site := (m.profiles[p]?).bind (·.sites[pc]?)

end Machine

/-- What a site's guess promises at an offset of a unit, on a machine. -/
def SiteCache.SoundAt (m : Machine) (u : CodeUnit) (pc : Nat) : SiteCache → Prop
  | .global ga v value => ∃ g, m.heap.get? ga = some (.globals g) ∧ v ≤ g.version ∧
      (g.version = v → g.resolve m.builtins (u.nameAt pc) = some value)
  | .attr shape slot => ∀ a p, m.heap.get? a = some (.object p) → p.shape = some shape →
      p.slotOf (u.nameAt pc) = some slot
  | .call fa => ∃ fn c, m.heap.get? fa = some (.function fn) ∧
      m.heap.get? fn.code = some (.code c) ∧ c.unit.Direct (u.argcAt pc)
  | .strStr => ∀ op, Opcode.ofByte? (u.byteAt pc) = some (.binary op) → op = .add
  | _ => True

namespace Machine

/-- Every site of every code object of the store guesses right. -/
def CachesSound (m : Machine) : Prop :=
  ∀ a c pc s, m.heap.get? a = some (.code c) → m.siteAt c.profile pc = some s →
    s.cache.SoundAt m c.unit pc

/-- The invariant of the machine. -/
structure Sound (m : Machine) : Prop where
  heap : m.heap.WF
  context : ∀ a, m.context = some a → m.heap.IsExc a
  profiled : ∀ a c, m.heap.get? a = some (.code c) → c.profile < m.profiles.size
  owners : ∀ a b c d, m.heap.get? a = some (.code c) → m.heap.get? b = some (.code d) →
    c.profile = d.profile → c.unit = d.unit
  caches : m.heap.HostsCoherent → m.CachesSound

/-- How a machine may change across a run: the store evolves, the builtins stay and the
profiles keep their number. -/
structure Evolves (m m' : Machine) : Prop where
  heap : m.heap.Evolves m'.heap
  builtins : m'.builtins = m.builtins
  profiles : m'.profiles.size = m.profiles.size

theorem Evolves.refl (m : Machine) : m.Evolves m := ⟨.refl _, rfl, rfl⟩

theorem Evolves.ofHeap {m : Machine} {h : Heap} (he : m.heap.Evolves h) :
    m.Evolves { m with heap := h } := ⟨he, rfl, rfl⟩

theorem Evolves.trans {m m' m'' : Machine} (h₁ : m.Evolves m') (h₂ : m'.Evolves m'') :
    m.Evolves m'' :=
  ⟨h₁.heap.trans h₂.heap, h₂.builtins.trans h₁.builtins, h₂.profiles.trans h₁.profiles⟩

end Machine

/-- A site with its guess forgotten. -/
def Profile.erase (p : Profile) : Profile := { p with sites := p.sites.map fun _ => {} }

namespace Machine

/-- The machine had it never specialized: specialization off, every site unresolved and the
counters of sites at zero. -/
def erase (m : Machine) : Machine :=
  { m with config := { m.config with specialize := false },
           profiles := m.profiles.map Profile.erase,
           stats := { m.stats with cacheHits := 0, cacheMisses := 0, resolvedSites := 0 } }

variable {m m' : Machine}

@[simp] theorem erase_heap : m.erase.heap = m.heap := rfl
@[simp] theorem erase_context : m.erase.context = m.context := rfl
@[simp] theorem erase_builtins : m.erase.builtins = m.builtins := rfl
@[simp] theorem erase_modules : m.erase.modules = m.modules := rfl
@[simp] theorem erase_depth : m.erase.depth = m.depth := rfl
@[simp] theorem erase_fastPaths : m.erase.fastPaths = m.fastPaths := rfl
@[simp] theorem erase_maxDepth : m.erase.config.maxDepth = m.config.maxDepth := rfl
@[simp] theorem erase_osrThreshold : m.erase.config.osrThreshold = m.config.osrThreshold := rfl
@[simp] theorem erase_specialize : m.erase.config.specialize = false := rfl
@[simp] theorem erase_osrEntries : m.erase.stats.osrEntries = m.stats.osrEntries := rfl
@[simp] theorem erase_osrDeopts : m.erase.stats.osrDeopts = m.stats.osrDeopts := rfl
@[simp] theorem size_erase_profiles : m.erase.profiles.size = m.profiles.size := by
  simp [erase]

/-- Erasing commutes with the changes that touch neither the configuration, the sites nor the
counters of sites. -/
theorem erase_with (h : Heap) (c : Option Addr) (d : Nat) :
    ({ m with heap := h, context := c, depth := d } : Machine).erase =
      { m.erase with heap := h, context := c, depth := d } := rfl

theorem siteAt_erase {p pc : Nat} {s : Site} (h : m.erase.siteAt p pc = some s) :
    s.cache = .unresolved := by
  simp only [siteAt, erase, Array.getElem?_map, Option.bind_map] at h
  obtain ⟨pr, -, hs⟩ := Option.bind_eq_some_iff.1 h
  simp only [Function.comp, Profile.erase, Array.getElem?_map, Option.map_eq_some_iff] at hs
  obtain ⟨_, -, rfl⟩ := hs
  rfl

end Machine

theorem SiteCache.SoundAt.evolves {m m' : Machine} {c : SiteCache} {u : CodeUnit} {pc : Nat}
    (hc : c.SoundAt m u pc) (he : m.Evolves m') : c.SoundAt m' u pc := by
  cases c with
  | global ga v value =>
    obtain ⟨g, hg, hv, hval⟩ := hc
    obtain ⟨g', hg', hp⟩ := he.heap.globals hg
    refine ⟨g', hg', Nat.le_trans hv hp.version, fun hv' => ?_⟩
    have hsame : g'.version = g.version := by have := hp.version; omega
    rw [hp.same hsame, he.builtins]
    exact hval (by omega)
  | attr shape slot =>
    intro a p' hp' hs
    obtain ⟨p, hp, hps, hpn⟩ := he.heap.object hp'
    have := hc a p hp (hps ▸ hs)
    simpa only [HostObject.slotOf, hpn] using this
  | call fa =>
    obtain ⟨fn, c, hfn, hc', hd⟩ := hc
    exact ⟨fn, c, he.heap.function hfn, he.heap.code.2 hc', hd⟩
  | strStr => exact hc
  | unresolved | intInt | floatFloat | generic => trivial

namespace Machine

variable {m m' : Machine}

theorem CachesSound.evolves (hc : m.CachesSound) (he : m.Evolves m')
    (hp : m'.profiles = m.profiles) : m'.CachesSound := by
  intro a c pc s hca hs
  have hs' : m.siteAt c.profile pc = some s := by
    simpa only [siteAt, hp] using hs
  exact (hc a c pc s (he.heap.code.1 hca) hs').evolves he

/-- A machine that evolved with its profiles kept, a store with the store's facts and an
exception as its context is sound. -/
theorem Sound.of_evolves (hs : m.Sound) (he : m.Evolves m') (hwf : m'.heap.WF)
    (hctx : ∀ a, m'.context = some a → m'.heap.IsExc a) (hp : m'.profiles = m.profiles) :
    m'.Sound where
  heap := hwf
  context := hctx
  profiled a c hc := hp ▸ hs.profiled a c (he.heap.code.1 hc)
  owners a b c d hc hd := hs.owners a b c d (he.heap.code.1 hc) (he.heap.code.1 hd)
  caches hco := (hs.caches (hco.of_evolves he.heap)).evolves he hp

theorem Sound.erase (hs : m.Sound) : m.erase.Sound where
  heap := hs.heap
  context := hs.context
  profiled a c hc := by
    rw [size_erase_profiles]
    exact hs.profiled a c hc
  owners := hs.owners
  caches _ _ _ _ _ _ hsite := by
    rw [siteAt_erase hsite]
    trivial

end Machine

namespace Active

/-- A sound machine running a sound frame. -/
structure Sound (s : Active) : Prop where
  machine : s.machine.Sound
  frame : s.frame.Sound s.machine.heap

/-- The activation on the erased machine. -/
def erase (s : Active) : Active := ⟨s.machine.erase, s.frame⟩

@[simp] theorem erase_machine (s : Active) : s.erase.machine = s.machine.erase := rfl
@[simp] theorem erase_frame (s : Active) : s.erase.frame = s.frame := rfl

theorem Sound.erase {s : Active} (hs : s.Sound) : s.erase.Sound := ⟨hs.machine.erase, hs.frame⟩

end Active

end StackVm
