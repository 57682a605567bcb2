import StackVm.Proofs.Engine.Frames
import StackVm.Proofs.Generator.Close

/-! Changing a generator in place.  Such a change leaves every object of another kind where it
was, so the facts of the store about code, exceptions, namespaces, functions and host objects
carry over, and the machine stays sound when the generator it makes is coherent with a sound
parked frame (`Machine.Sound.modify_generator_any`).

While a body runs its generator is marked running, and every run that does not own the body
leaves a running generator as it is.  Clearing the mark is therefore no evolution of the store
on its own; the stretch from before the mark to after its clearing is one, since the generator
ends as a later state of the one before the mark (`Heap.Evolves.modify_generator_of`). -/

namespace StackVm

namespace Generator

variable {G : Generator}

theorem Coherent.unmark (hco : G.Coherent) :
    ({ G with running := false } : Generator).Coherent where
  running h := absurd h Bool.false_ne_true
  finished h := ⟨rfl, (hco.finished h).2⟩
  parked h := ⟨(hco.parked h).1, rfl, (hco.parked h).2.2⟩
  fresh h := ⟨(hco.fresh h).1, rfl⟩

theorem coherent_mark (hf : G.finished = false) (hfr : G.frame = none) :
    ({ G with running := true, started := true } : Generator).Coherent where
  running _ := ⟨rfl, hf, hfr⟩
  finished h := absurd (hf.symm.trans h) Bool.false_ne_true
  parked h := by
    dsimp only at h
    rw [hfr] at h
    exact absurd h Bool.false_ne_true
  fresh h := absurd h.symm Bool.false_ne_true

theorem coherent_finish (G : Generator) : G.finish.Coherent where
  running h := absurd h Bool.false_ne_true
  finished _ := ⟨rfl, rfl⟩
  parked h := absurd h Bool.false_ne_true
  fresh _ := ⟨rfl, rfl⟩

theorem coherent_park (hs : G.started = true) (hr : G.running = false) (hf : G.finished = false)
    (f : Frame) : ({ G with frame := some f } : Generator).Coherent where
  running h := absurd (hr.symm.trans h) Bool.false_ne_true
  finished h := absurd (hf.symm.trans h) Bool.false_ne_true
  parked _ := ⟨hs, hr, hf⟩
  fresh h := absurd (h.symm.trans hs) Bool.false_ne_true

section Idle

/-! A generator that is not running may become any later state of itself: marked running,
started, finished, or holding another frame. -/

variable (hr : G.running = false)
include hr

theorem stays_mark : G.Stays { G with running := true, started := true } where
  running h := absurd (hr.symm.trans h) Bool.false_ne_true
  started _ := rfl
  finished := id

theorem stays_start : G.Stays { G with started := true } where
  running h := absurd (hr.symm.trans h) Bool.false_ne_true
  started _ := rfl
  finished := id

theorem stays_frame (fr : Option Frame) : G.Stays { G with frame := fr } where
  running h := absurd (hr.symm.trans h) Bool.false_ne_true
  started := id
  finished := id

theorem stays_finish : G.Stays G.finish where
  running h := absurd (hr.symm.trans h) Bool.false_ne_true
  started := id
  finished _ := rfl

theorem unmark_mark :
    ({ ({ G with running := true, started := true } : Generator) with running := false } :
      Generator) = { G with started := true } := by
  cases G
  cases hr
  rfl

end Idle

end Generator

namespace Heap

variable {h h₀ : Heap} {g b : Addr} {G G₀ : Generator} {F : Generator → Generator}

theorem get?_modify_generator_iff (hg : h.get? g = some (.generator G)) {o : Obj}
    (ho : ∀ G', o ≠ .generator G') :
    (h.modify g (Obj.mapGenerator F)).get? b = some o ↔ h.get? b = some o := by
  by_cases hgb : g = b
  · subst hgb
    rw [get?_modify_generator hg, hg]
    exact ⟨fun h' => absurd (Option.some.inj h').symm (ho _),
      fun h' => absurd (Option.some.inj h').symm (ho _)⟩
  · rw [get?_modify_of_ne hgb]

theorem isExc_modify_generator (hg : h.get? g = some (.generator G)) :
    (h.modify g (Obj.mapGenerator F)).IsExc b ↔ h.IsExc b :=
  exists_congr fun _ => get?_modify_generator_iff hg fun _ h => by cases h

theorem links_modify_generator (hg : h.get? g = some (.generator G)) (a : Addr) :
    Vm.links (h.modify g (Obj.mapGenerator F)) a = Vm.links h a :=
  Vm.links_congr fun _ => get?_modify_generator_iff hg fun _ h => by cases h

theorem ChainSound.modify_generator (hc : h.ChainSound) (hg : h.get? g = some (.generator G)) :
    (h.modify g (Obj.mapGenerator F)).ChainSound where
  links a b hab := by
    rw [Link, links_modify_generator hg] at hab
    exact (isExc_modify_generator hg).2 (hc.links a b hab)
  acyclic := hc.acyclic.mono fun a b hab => by
    rw [Link, links_modify_generator hg] at hab
    exact hab

theorem HostsCoherent.of_modify_generator (hg : h.get? g = some (.generator G))
    (hco : (h.modify g (Obj.mapGenerator F)).HostsCoherent) : h.HostsCoherent :=
  fun a b p q s hp hq =>
    hco a b p q s ((get?_modify_generator_iff hg fun _ h => by cases h).2 hp)
      ((get?_modify_generator_iff hg fun _ h => by cases h).2 hq)

end Heap

theorem Frame.Sound.modify_generator {h : Heap} {g : Addr} {G : Generator}
    {F : Generator → Generator} {f : Frame} (hf : f.Sound h)
    (hg : h.get? g = some (.generator G)) : f.Sound (h.modify g (Obj.mapGenerator F)) :=
  ⟨(Heap.get?_modify_generator_iff hg fun _ h => by cases h).2 hf.code,
    fun hd m => (Heap.isExc_modify_generator hg).2 (hf.handled hd m),
    fun a ha => (Heap.isExc_modify_generator hg).2 (hf.inherited a ha)⟩

namespace Heap

variable {h h₀ : Heap} {g : Addr} {G G₀ : Generator} {F : Generator → Generator}

/-- The store's facts survive a change of a generator into a coherent one with a sound parked
frame. -/
theorem WF.modify_generator (hwf : h.WF) (hg : h.get? g = some (.generator G))
    (hco : (F G).Coherent) (hfr : ∀ f, (F G).frame = some f → f.Sound h) :
    (h.modify g (Obj.mapGenerator F)).WF where
  generators a G' ha := by
    by_cases hga : g = a
    · subst hga
      rw [get?_modify_generator hg] at ha
      cases ha
      exact hco
    · rw [get?_modify_of_ne hga] at ha
      exact hwf.generators a G' ha
  parked a G' f ha hf := by
    by_cases hga : g = a
    · subst hga
      rw [get?_modify_generator hg] at ha
      cases ha
      exact (hfr f hf).modify_generator hg
    · rw [get?_modify_of_ne hga] at ha
      exact (hwf.parked a G' f ha hf).modify_generator hg
  chain := hwf.chain.modify_generator hg

/-- A stretch of runs that ends by changing the generator at `g` is an evolution of the store
when the generator ends as a later state of the one it started as. -/
theorem Evolves.modify_generator_of (he : h₀.Evolves h) (hg₀ : h₀.get? g = some (.generator G₀))
    (hg : h.get? g = some (.generator G)) (hst : G₀.Stays (F G)) :
    h₀.Evolves (h.modify g (Obj.mapGenerator F)) where
  size_le := by
    rw [show (h.modify g (Obj.mapGenerator F)).objs.size = h.objs.size from Array.size_modify ..]
    exact he.size_le
  becomes a o ho := by
    by_cases hga : g = a
    · subst hga
      rw [hg₀] at ho
      cases ho
      exact ⟨_, get?_modify_generator hg F, .of_generator hst⟩
    · obtain ⟨o', ho', hb⟩ := he.becomes a o ho
      exact ⟨o', by rw [get?_modify_of_ne hga]; exact ho', hb⟩
  made a o' ha ho' := by
    have hga : g ≠ a := fun hga => absurd (hga ▸ lt_of_get? hg₀) (Nat.not_lt.2 ha)
    rw [get?_modify_of_ne hga] at ho'
    exact he.made a o' ha ho'

end Heap

theorem SiteCache.SoundAt.modify_generator {m : Machine} {c : SiteCache} {u : CodeUnit}
    {pc : Nat} {g : Addr} {G : Generator} {F : Generator → Generator} (hc : c.SoundAt m u pc)
    (hg : m.heap.get? g = some (.generator G)) :
    c.SoundAt { m with heap := m.heap.modify g (Obj.mapGenerator F) } u pc := by
  have keep : ∀ {o : Obj}, (∀ G', o ≠ .generator G') → ∀ b,
      (m.heap.modify g (Obj.mapGenerator F)).get? b = some o ↔ m.heap.get? b = some o :=
    fun ho _ => Heap.get?_modify_generator_iff hg ho
  cases c with
  | global ga v value =>
    obtain ⟨g', hg', hv⟩ := hc
    exact ⟨g', (keep (fun _ h => by cases h) ga).2 hg', hv⟩
  | attr shape slot =>
    exact fun a p hp hs => hc a p ((keep (fun _ h => by cases h) a).1 hp) hs
  | call fa =>
    obtain ⟨fn, c, hfn, hc', hd⟩ := hc
    exact ⟨fn, c, (keep (fun _ h => by cases h) fa).2 hfn, (keep (fun _ h => by cases h) _).2 hc', hd⟩
  | strStr => exact hc
  | unresolved | intInt | floatFloat | generic => trivial

namespace Machine

variable {m : Machine} {g : Addr} {G : Generator} {F : Generator → Generator}

/-- Changing a generator in any way into a coherent one with a sound parked frame keeps the
machine sound; only an evolution of the store needs the change to be a later state. -/
theorem Sound.modify_generator_any (hs : m.Sound) (hg : m.heap.get? g = some (.generator G))
    (hco : (F G).Coherent) (hfr : ∀ f, (F G).frame = some f → f.Sound m.heap) :
    { m with heap := m.heap.modify g (Obj.mapGenerator F) }.Sound where
  heap := hs.heap.modify_generator hg hco hfr
  context a ha := (Heap.isExc_modify_generator hg).2 (hs.context a ha)
  profiled a c hc := hs.profiled a c ((Heap.get?_modify_generator_iff hg fun _ h => by cases h).1 hc)
  owners a b c d hc hd := hs.owners a b c d
    ((Heap.get?_modify_generator_iff hg fun _ h => by cases h).1 hc)
    ((Heap.get?_modify_generator_iff hg fun _ h => by cases h).1 hd)
  caches hco' a c pc s hca hsite :=
    (hs.caches (hco'.of_modify_generator hg) a c pc s
      ((Heap.get?_modify_generator_iff hg fun _ h => by cases h).1 hca) hsite).modify_generator hg

end Machine

end StackVm
