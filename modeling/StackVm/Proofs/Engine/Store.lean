import StackVm.Proofs.Machine.Store

/-! How the store may change while the engine runs.  Addresses are never reused and the store
only grows.  A few kinds of objects carry facts that later runs rely on, and they may change
only in restricted ways (`Heap.Evolves`): a running generator is left alone by everything that
runs inside its body, and its `started` and `finished` flags never go back; a namespace only
moves to later versions, and at one version it has one content; exceptions stay exceptions;
code objects and functions never change and the engine makes no new ones; host objects stay
host objects of their layout, and the engine makes no new ones.  Everything else in the store
is ordinary, and changes to it are unconstrained. -/

namespace EStateM.Result

variable {ε σ α : Type}

/-- The state a computation ends in, whether it finished or failed. -/
def state : EStateM.Result ε σ α → σ
  | .ok _ s => s
  | .error _ s => s

/-- The same outcome, with the state changed by `g`. -/
def mapState (g : σ → σ) : EStateM.Result ε σ α → EStateM.Result ε σ α
  | .ok a s => .ok a (g s)
  | .error e s => .error e (g s)

@[simp] theorem state_ok (a : α) (s : σ) : (ok a s : EStateM.Result ε σ α).state = s := rfl

@[simp] theorem state_error (e : ε) (s : σ) : (error e s : EStateM.Result ε σ α).state = s := rfl

@[simp] theorem mapState_ok (g : σ → σ) (a : α) (s : σ) :
    (ok a s : EStateM.Result ε σ α).mapState g = ok a (g s) := rfl

@[simp] theorem mapState_error (g : σ → σ) (e : ε) (s : σ) :
    (error e s : EStateM.Result ε σ α).mapState g = error e (g s) := rfl

end EStateM.Result

namespace StackVm

namespace Heap

variable {h : Heap} {a b : Addr} {o : Obj}

@[simp] theorem alloc_snd (h : Heap) (o : Obj) : (h.alloc o).2 = h.objs.size := rfl

@[simp] theorem size_alloc (h : Heap) (o : Obj) : (h.alloc o).1.objs.size = h.objs.size + 1 := by
  simp [alloc]

theorem get?_alloc_eq (h : Heap) (o : Obj) (b : Addr) :
    (h.alloc o).1.get? b = if b = h.objs.size then some o else h.get? b := by
  simp [alloc, get?, Array.getElem?_push]

@[simp] theorem size_modify (h : Heap) (a : Addr) (f : Obj → Obj) :
    (h.modify a f).objs.size = h.objs.size := by
  simp [modify]

theorem get?_modify_eq (h : Heap) (a : Addr) (f : Obj → Obj) (b : Addr) :
    (h.modify a f).get? b = if a = b then (h.get? b).map f else h.get? b := by
  simp [modify, get?, Array.getElem?_modify]

theorem lt_of_get? (hb : h.get? b = some o) : b < h.objs.size := by
  unfold get? at hb
  by_contra hn
  rw [Array.getElem?_eq_none (Nat.le_of_not_lt hn)] at hb
  cases hb

theorem get?_alloc_of_get? {o' : Obj} (hb : h.get? b = some o) : (h.alloc o').1.get? b = some o := by
  rw [get?_alloc_eq, if_neg (Nat.ne_of_lt (lt_of_get? hb)), hb]

theorem get?_alloc_cases {o' : Obj} (hb : (h.alloc o).1.get? b = some o') :
    h.get? b = some o' ∨ (b = h.objs.size ∧ o' = o) := by
  rw [get?_alloc_eq] at hb
  split at hb
  · cases hb
    exact .inr ⟨‹_›, rfl⟩
  · exact .inl hb

end Heap

namespace Obj

/-- Objects that no fact of the engine watches: numbers, strings, containers, cells, natives,
iterators and modules.  Generators, namespaces, exceptions, code objects, functions and host
objects are watched. -/
def Ordinary : Obj → Prop
  | .generator _ | .globals _ | .exception _ | .code _ | .function _ | .object _ => False
  | _ => True

/-- A change that leaves every watched object as it is and keeps ordinary objects ordinary. -/
def Plain (F : Obj → Obj) : Prop := ∀ o, F o = o ∨ (o.Ordinary ∧ (F o).Ordinary)

theorem Plain.apply_eq {F : Obj → Obj} (hF : Plain F) {o o' : Obj} (ho' : ¬ o'.Ordinary) :
    F o = o' ↔ o = o' := by
  rcases hF o with h | ⟨ho, hFo⟩
  · rw [h]
  · constructor
    · rintro rfl
      exact absurd hFo ho'
    · rintro rfl
      exact absurd ho ho'

theorem plain_mapList (g : Array Value → Array Value) : Plain (mapList g) := by
  intro o
  cases o <;> simp [mapList, Ordinary]

theorem plain_mapDict (g : Array (Value × Value) → Array (Value × Value)) : Plain (mapDict g) := by
  intro o
  cases o <;> simp [mapDict, Ordinary]

theorem plain_mapCell (g : Option Value → Option Value) : Plain (mapCell g) := by
  intro o
  cases o <;> simp [mapCell, Ordinary]

theorem plain_mapIter (g : Iter → Iter) : Plain (mapIter g) := by
  intro o
  cases o <;> simp [mapIter, Ordinary]

theorem plain_mapModule (g : Module → Module) : Plain (mapModule g) := by
  intro o
  cases o <;> simp [mapModule, Ordinary]

end Obj

namespace Generator

/-- The flags of a generator agree with one another and with its parked frame: a running
generator has started, is not finished and has no parked frame; a finished one is not running
and has no frame; a parked frame belongs to a started generator that is neither running nor
finished; a generator that has not started has no frame and is not running. -/
structure Coherent (g : Generator) : Prop where
  running : g.running = true → g.started = true ∧ g.finished = false ∧ g.frame = none
  finished : g.finished = true → g.running = false ∧ g.frame = none
  parked : g.frame.isSome = true → g.started = true ∧ g.running = false ∧ g.finished = false
  fresh : g.started = false → g.frame = none ∧ g.running = false

/-- What a generator may become across a run that did not begin inside its body: a running
generator is left as it is, and `started` and `finished` never go back. -/
structure Stays (g g' : Generator) : Prop where
  running : g.running = true → g' = g
  started : g.started = true → g'.started = true
  finished : g.finished = true → g'.finished = true

theorem Stays.refl (g : Generator) : Stays g g := ⟨fun _ => rfl, id, id⟩

theorem Stays.trans {g g' g'' : Generator} (h₁ : Stays g g') (h₂ : Stays g' g'') : Stays g g'' where
  running hr := by
    have h := h₁.running hr
    subst h
    exact h₂.running hr
  started hs := h₂.started (h₁.started hs)
  finished hf := h₂.finished (h₁.finished hf)

end Generator

/-- A later state of a namespace: its version never goes back, and at one version a namespace
has one content. -/
structure Globals.Precedes (g g' : Globals) : Prop where
  version : g.version ≤ g'.version
  same : g'.version = g.version → g' = g

theorem Globals.Precedes.refl (g : Globals) : g.Precedes g := ⟨Nat.le_refl _, fun _ => rfl⟩

theorem Globals.Precedes.trans {g g' g'' : Globals} (h₁ : g.Precedes g') (h₂ : g'.Precedes g'') :
    g.Precedes g'' where
  version := Nat.le_trans h₁.version h₂.version
  same hv := by
    have hv' : g'.version = g.version :=
      Nat.le_antisymm (hv ▸ h₂.version) h₁.version
    rw [h₂.same (hv.trans hv'.symm), h₁.same hv']

theorem Globals.precedes_of_version {g g' : Globals} (hv : g'.version = g.version + 1) :
    g.Precedes g' :=
  ⟨by omega, fun h => by omega⟩

namespace Obj

/-- An object the engine may make: anything but a code object or a host object. -/
structure Made (o : Obj) : Prop where
  code : ∀ c, o ≠ .code c
  object : ∀ p, o ≠ .object p

/-- What one object may become across a run of the engine (see the module text). -/
structure Becomes (o o' : Obj) : Prop where
  generator : ∀ g, o = .generator g → ∃ g', o' = .generator g' ∧ g.Stays g'
  globals : ∀ g, o = .globals g → ∃ g', o' = .globals g' ∧ g.Precedes g'
  exception : ∀ e, o = .exception e → ∃ e', o' = .exception e'
  code : ∀ c, o' = .code c ↔ o = .code c
  function : ∀ f, o = .function f → o' = .function f
  host : ∀ p, o = .object p →
    ∃ p', o' = .object p' ∧ p'.shape = p.shape ∧ p'.slotNames = p.slotNames
  object : ∀ p', o' = .object p' →
    ∃ p, o = .object p ∧ p'.shape = p.shape ∧ p'.slotNames = p.slotNames

namespace Becomes

theorem refl (o : Obj) : o.Becomes o where
  generator g h := ⟨g, h, .refl g⟩
  globals g h := ⟨g, h, .refl g⟩
  exception e h := ⟨e, h⟩
  code _ := Iff.rfl
  function _ h := h
  host p h := ⟨p, h, rfl, rfl⟩
  object p h := ⟨p, h, rfl, rfl⟩

theorem trans {o o' o'' : Obj} (h₁ : o.Becomes o') (h₂ : o'.Becomes o'') : o.Becomes o'' where
  generator g h := by
    obtain ⟨g', rfl, hs⟩ := h₁.generator g h
    obtain ⟨g'', rfl, hs'⟩ := h₂.generator g' rfl
    exact ⟨g'', rfl, hs.trans hs'⟩
  globals g h := by
    obtain ⟨g', rfl, hp⟩ := h₁.globals g h
    obtain ⟨g'', rfl, hp'⟩ := h₂.globals g' rfl
    exact ⟨g'', rfl, hp.trans hp'⟩
  exception e h := by
    obtain ⟨e', rfl⟩ := h₁.exception e h
    exact h₂.exception e' rfl
  code c := (h₂.code c).trans (h₁.code c)
  function f h := h₂.function f (h₁.function f h)
  host p h := by
    obtain ⟨p', rfl, hs, hn⟩ := h₁.host p h
    obtain ⟨p'', rfl, hs', hn'⟩ := h₂.host p' rfl
    exact ⟨p'', rfl, hs'.trans hs, hn'.trans hn⟩
  object p'' h := by
    obtain ⟨p', rfl, hs', hn'⟩ := h₂.object p'' h
    obtain ⟨p, rfl, hs, hn⟩ := h₁.object p' rfl
    exact ⟨p, rfl, hs'.trans hs, hn'.trans hn⟩

theorem of_eq {o o' : Obj} (h : o' = o) : o.Becomes o' := h ▸ refl o

theorem of_plain {F : Obj → Obj} (hF : Plain F) (o : Obj) : o.Becomes (F o) := by
  rcases hF o with h | ⟨ho, hFo⟩
  · exact of_eq h
  · have other : ∀ {x y : Obj}, x.Ordinary → ¬ y.Ordinary → x ≠ y := fun hx hy h => hy (h ▸ hx)
    exact ⟨fun _ h => absurd h (other ho id), fun _ h => absurd h (other ho id),
      fun _ h => absurd h (other ho id),
      fun _ => ⟨fun h => absurd h (other hFo id), fun h => absurd h (other ho id)⟩,
      fun _ h => absurd h (other ho id), fun _ h => absurd h (other ho id),
      fun _ h => absurd h (other hFo id)⟩

theorem of_globals {g g' : Globals} (hp : g.Precedes g') : (Obj.globals g).Becomes (.globals g') where
  generator _ h := by cases h
  globals _ h := by
    cases h
    exact ⟨g', rfl, hp⟩
  exception _ h := by cases h
  code _ := ⟨(fun h => by cases h), (fun h => by cases h)⟩
  function _ h := by cases h
  host _ h := by cases h
  object _ h := by cases h

theorem of_exception (e e' : Exc) : (Obj.exception e).Becomes (.exception e') where
  generator _ h := by cases h
  globals _ h := by cases h
  exception _ _ := ⟨e', rfl⟩
  code _ := ⟨(fun h => by cases h), (fun h => by cases h)⟩
  function _ h := by cases h
  host _ h := by cases h
  object _ h := by cases h

theorem of_generator {g g' : Generator} (hs : g.Stays g') :
    (Obj.generator g).Becomes (.generator g') where
  generator _ h := by
    cases h
    exact ⟨g', rfl, hs⟩
  globals _ h := by cases h
  exception _ h := by cases h
  code _ := ⟨(fun h => by cases h), (fun h => by cases h)⟩
  function _ h := by cases h
  host _ h := by cases h
  object _ h := by cases h

theorem of_host {p p' : HostObject} (hs : p'.shape = p.shape) (hn : p'.slotNames = p.slotNames) :
    (Obj.object p).Becomes (.object p') where
  generator _ h := by cases h
  globals _ h := by cases h
  exception _ h := by cases h
  code _ := ⟨(fun h => by cases h), (fun h => by cases h)⟩
  function _ h := by cases h
  host _ h := by
    cases h
    exact ⟨p', rfl, hs, hn⟩
  object _ h := by
    cases h
    exact ⟨p, rfl, hs, hn⟩

theorem mapGlobals {f : Globals → Globals} (hf : ∀ g : Globals, g.Precedes (f g)) (o : Obj) :
    o.Becomes (o.mapGlobals f) := by
  cases o
  case globals g => exact of_globals (hf g)
  all_goals exact refl _

theorem mapExc (f : Exc → Exc) (o : Obj) : o.Becomes (o.mapExc f) := by
  cases o
  case exception e => exact of_exception e (f e)
  all_goals exact refl _

theorem mapHost {f : HostObject → HostObject} (hs : ∀ p : HostObject, (f p).shape = p.shape)
    (hn : ∀ p : HostObject, (f p).slotNames = p.slotNames) (o : Obj) :
    o.Becomes (o.mapHost f) := by
  cases o
  case object p => exact of_host (hs p) (hn p)
  all_goals exact refl _

theorem made {o o' : Obj} (h : o.Becomes o') (ho : o.Made) : o'.Made :=
  ⟨fun c hc => ho.code c ((h.code c).1 hc),
    fun p hp => by
      obtain ⟨p₀, rfl, -⟩ := h.object p hp
      exact ho.object p₀ rfl⟩

end Becomes

end Obj

namespace Heap

/-- How the store may change across a run of the engine: it only grows, every object becomes
what `Obj.Becomes` allows, and the engine makes neither code objects nor host objects. -/
structure Evolves (h h' : Heap) : Prop where
  size_le : h.objs.size ≤ h'.objs.size
  becomes : ∀ a o, h.get? a = some o → ∃ o', h'.get? a = some o' ∧ o.Becomes o'
  made : ∀ a o', h.objs.size ≤ a → h'.get? a = some o' → o'.Made

namespace Evolves

variable {h h' h'' : Heap} {a : Addr}

theorem refl (h : Heap) : h.Evolves h where
  size_le := Nat.le_refl _
  becomes _ o ho := ⟨o, ho, .refl o⟩
  made _ _ ha ho := absurd (lt_of_get? ho) (Nat.not_lt.mpr ha)

theorem trans (h₁ : h.Evolves h') (h₂ : h'.Evolves h'') : h.Evolves h'' where
  size_le := Nat.le_trans h₁.size_le h₂.size_le
  becomes a o ho := by
    obtain ⟨o', ho', hb⟩ := h₁.becomes a o ho
    obtain ⟨o'', ho'', hb'⟩ := h₂.becomes a o' ho'
    exact ⟨o'', ho'', hb.trans hb'⟩
  made a o'' ha ho'' := by
    by_cases ha' : a < h'.objs.size
    · obtain ⟨o', ho'⟩ : ∃ o', h'.get? a = some o' :=
        Option.isSome_iff_exists.1 (by simp [get?, ha'])
      obtain ⟨o₂, ho₂, hb⟩ := h₂.becomes a o' ho'
      rw [ho''] at ho₂
      cases ho₂
      exact hb.made (h₁.made a o' ha ho')
    · exact h₂.made a o'' (Nat.le_of_not_lt ha') ho''

theorem generator (he : h.Evolves h') {g : Generator} (hg : h.get? a = some (.generator g)) :
    ∃ g', h'.get? a = some (.generator g') ∧ g.Stays g' := by
  obtain ⟨o', ho', hb⟩ := he.becomes a _ hg
  obtain ⟨g', rfl, hs⟩ := hb.generator g rfl
  exact ⟨g', ho', hs⟩

theorem globals (he : h.Evolves h') {g : Globals} (hg : h.get? a = some (.globals g)) :
    ∃ g', h'.get? a = some (.globals g') ∧ g.Precedes g' := by
  obtain ⟨o', ho', hb⟩ := he.becomes a _ hg
  obtain ⟨g', rfl, hp⟩ := hb.globals g rfl
  exact ⟨g', ho', hp⟩

theorem exception (he : h.Evolves h') {e : Exc} (hx : h.get? a = some (.exception e)) :
    ∃ e', h'.get? a = some (.exception e') := by
  obtain ⟨o', ho', hb⟩ := he.becomes a _ hx
  obtain ⟨e', rfl⟩ := hb.exception e rfl
  exact ⟨e', ho'⟩

theorem code (he : h.Evolves h') {c : CodeObj} : h'.get? a = some (.code c) ↔ h.get? a = some (.code c) := by
  constructor
  · intro hc
    by_cases ha : a < h.objs.size
    · obtain ⟨o, ho⟩ : ∃ o, h.get? a = some o := Option.isSome_iff_exists.1 (by simp [get?, ha])
      obtain ⟨o', ho', hb⟩ := he.becomes a o ho
      rw [hc] at ho'
      cases ho'
      rw [ho, ← (hb.code c).1 rfl]
    · exact absurd rfl ((he.made a _ (Nat.le_of_not_lt ha) hc).code c)
  · intro hc
    obtain ⟨o', ho', hb⟩ := he.becomes a _ hc
    rw [ho', (hb.code c).2 rfl]

theorem function (he : h.Evolves h') {f : Function} (hf : h.get? a = some (.function f)) :
    h'.get? a = some (.function f) := by
  obtain ⟨o', ho', hb⟩ := he.becomes a _ hf
  rw [ho', hb.function f rfl]

theorem host (he : h.Evolves h') {p : HostObject} (hp : h.get? a = some (.object p)) :
    ∃ p', h'.get? a = some (.object p') ∧ p'.shape = p.shape ∧ p'.slotNames = p.slotNames := by
  obtain ⟨o', ho', hb⟩ := he.becomes a _ hp
  obtain ⟨p', rfl, hs⟩ := hb.host p rfl
  exact ⟨p', ho', hs⟩

theorem object (he : h.Evolves h') {p' : HostObject} (hp : h'.get? a = some (.object p')) :
    ∃ p, h.get? a = some (.object p) ∧ p'.shape = p.shape ∧ p'.slotNames = p.slotNames := by
  by_cases ha : a < h.objs.size
  · obtain ⟨o, ho⟩ : ∃ o, h.get? a = some o := Option.isSome_iff_exists.1 (by simp [get?, ha])
    obtain ⟨o', ho', hb⟩ := he.becomes a o ho
    rw [hp] at ho'
    cases ho'
    obtain ⟨p, rfl, hs⟩ := hb.object p' rfl
    exact ⟨p, ho, hs⟩
  · exact absurd rfl ((he.made a _ (Nat.le_of_not_lt ha) hp).object p')

theorem modify {F : Obj → Obj} (h : Heap) (a : Addr)
    (hF : ∀ o, h.get? a = some o → o.Becomes (F o)) : h.Evolves (h.modify a F) where
  size_le := by simp
  becomes b o ho := by
    rw [get?_modify_eq]
    split
    · subst_vars
      exact ⟨F o, by rw [ho]; rfl, hF o ho⟩
    · exact ⟨o, ho, .refl o⟩
  made b o' hb ho' := by
    rw [get?_modify_eq] at ho'
    have hlt : b < h.objs.size := by
      split at ho'
      · obtain ⟨o, ho, -⟩ := Option.map_eq_some_iff.1 ho'
        exact lt_of_get? ho
      · exact lt_of_get? ho'
    exact absurd hlt (Nat.not_lt.mpr hb)

theorem modify_plain {F : Obj → Obj} (hF : Obj.Plain F) (h : Heap) (a : Addr) :
    h.Evolves (h.modify a F) :=
  modify h a fun o _ => .of_plain hF o

theorem alloc (h : Heap) {o : Obj} (ho : o.Made) : h.Evolves (h.alloc o).1 where
  size_le := by simp
  becomes _ o' ho' := ⟨o', get?_alloc_of_get? ho', .refl o'⟩
  made b o' hb ho' := by
    rcases get?_alloc_cases ho' with ho' | ⟨_, rfl⟩
    · exact absurd (lt_of_get? ho') (Nat.not_lt.mpr hb)
    · exact ho

end Evolves

end Heap

end StackVm
