import StackVm.Proofs.Engine.Kits
import StackVm.Machine.Setup

/-! The host's requests and the machines they reach.  The host boots a machine and places its
host objects; then it asks one request after another, each run on the machine the one before
left, whether that one answered or failed.  A request places a code unit with its pools and
profile, places an object of a kind the engine makes, binds a name in a namespace, or calls on
one of the operations the engine offers from outside any frame.

Every request served on a sound machine leaves it sound, moves every generator only forward,
keeps host objects in agreement, and runs alike on the erased machine when they agree
(`Request.served`).  The machines the host reaches are therefore sound (`Reachable.sound`). -/

namespace StackVm

/-- The objects the host places as they are: any object the engine makes, and an exception only
without links.  Code units go through their own request, and host objects are placed first. -/
def Obj.Placeable : Obj → Prop
  | .code _ | .object _ | .generator _ => False
  | .exception e => e.context = none ∧ e.cause = none
  | _ => True

/-- A request of the host. -/
inductive Request where
  /-- Places a code unit with its pool values and a profile of its own. -/
  | load (u : CodeUnit)
  /-- Places an object. -/
  | place (o : Obj)
  /-- Binds a name in a namespace. -/
  | bind (globals : Addr) (name : String) (v : Value)
  | invoke (code globals : Addr) (args : Array Value) (closure : Array Addr)
  | call (callable : Value) (args : Array Value)
  | advance (v : Value)
  | drainAll (v : Value)
  | resume (g : Addr) (v : Value)
  | send (g : Addr) (v : Value)
  | throwInto (g : Addr) (v : Value)
  | close (g : Addr)

/-- What a request answers. -/
inductive Reply where
  | addr (a : Addr)
  | value (v : Value)
  | item (v : Option Value)
  | items (vs : Array Value)
  | step (s : GenStep)
  | done

namespace Request

/-- A request as a computation on the machine. -/
def run : Request → Vm Reply
  | load u => Reply.addr <$> Vm.newCode u
  | place o => Reply.addr <$> Vm.alloc o
  | bind a name v => (fun _ => Reply.done) <$> Vm.modifyObj a (Obj.mapGlobals (·.set name v))
  | invoke code globals args closure => Reply.value <$> Vm.invoke code globals args closure
  | call callable args => Reply.value <$> Vm.call callable args
  | advance v => Reply.item <$> Vm.advance v
  | drainAll v => Reply.items <$> Vm.drainAll v
  | resume g v => Reply.step <$> Vm.resume g v
  | send g v => Reply.value <$> Vm.send g v
  | throwInto g v => Reply.value <$> Vm.throwInto g v
  | close g => (fun _ => Reply.done) <$> Vm.close g

/-- The host places only objects it may place. -/
def Allowed : Request → Prop
  | place o => o.Placeable
  | _ => True

/-- A request's answer or failure, with the machine it leaves. -/
def outcome (r : Request) (m : Machine) : Except Fault Reply × Machine :=
  match r.run m with
  | .ok v m' => (.ok v, m')
  | .error e m' => (.error e, m')

end Request

/-- Serves requests one after another, each on the machine the one before left. -/
def serve : List Request → Machine → List (Except Fault Reply) × Machine
  | [], m => ([], m)
  | r :: rs, m => ((r.outcome m).1 :: (serve rs (r.outcome m).2).1, (serve rs (r.outcome m).2).2)

namespace Machine

/-- A fresh machine with host objects placed, in order. -/
def ready (config : Config) (fastPaths : Bool) (hosts : List HostObject) : Machine :=
  { Machine.boot config fastPaths with
    heap := hosts.foldl (fun h p => (h.alloc (.object p)).1) (Machine.boot config fastPaths).heap }

end Machine

/-- The machines the host reaches: a fresh one with its host objects, then requests. -/
inductive Reachable : Machine → Prop where
  | ready (config : Config) (fastPaths : Bool) (hosts : List HostObject) :
      Reachable (Machine.ready config fastPaths hosts)
  | serve {m : Machine} (r : Request) : r.Allowed → Reachable m → Reachable (r.run m).state

/-! ### Fresh machines -/

namespace Heap

variable {h : Heap} {o : Obj} {a : Addr}

theorem not_link_of_inert (hinert : ∀ a o, h.get? a = some o → o.links = []) (a b : Addr) :
    ¬ h.Link a b := by
  intro hab
  unfold Link at hab
  cases ho : h.get? a with
  | none =>
    rw [Vm.links_of_get?_none ho] at hab
    cases hab
  | some o =>
    rw [Vm.links_of_get? ho, hinert a o ho] at hab
    cases hab

theorem wf_of_inert (hinert : ∀ a o, h.get? a = some o → o.links = [] ∧ ∀ G, o ≠ .generator G) :
    h.WF where
  generators a G hg := absurd rfl ((hinert a _ hg).2 G)
  parked a G _ hg _ := absurd rfl ((hinert a _ hg).2 G)
  chain := by
    have hlink := not_link_of_inert fun a o ho => (hinert a o ho).1
    refine ⟨fun a b hab => absurd hab (hlink a b), fun a haa => ?_⟩
    obtain ⟨b, hab, -⟩ := Relation.TransGen.head'_iff.1 haa
    exact hlink a b hab

theorem isExc_alloc (hb : h.IsExc a) (o : Obj) : (h.alloc o).1.IsExc a := by
  obtain ⟨e, he⟩ := hb
  exact ⟨e, get?_alloc_of_get? he⟩

theorem HostsCoherent.alloc (hco : h.HostsCoherent) (ho : ∀ p, o ≠ .object p) :
    (h.alloc o).1.HostsCoherent := by
  intro a b p q s hp hq hps hqs n
  rcases get?_alloc_cases hp with hp | ⟨_, hop⟩
  · rcases get?_alloc_cases hq with hq | ⟨_, hoq⟩
    · exact hco a b p q s hp hq hps hqs n
    · exact absurd hoq.symm (ho q)
  · exact absurd hop.symm (ho p)

theorem HostsCoherent.of_alloc (hco : (h.alloc o).1.HostsCoherent) : h.HostsCoherent :=
  fun a b p q s hp hq => hco a b p q s (get?_alloc_of_get? hp) (get?_alloc_of_get? hq)

end Heap

namespace Machine

variable {config : Config} {fastPaths : Bool} {hosts : List HostObject} {a : Addr} {o : Obj}

/-- A machine whose store holds no code, no generator and no links, and which handles nothing,
is sound. -/
theorem sound_of_inert {m : Machine} (hinert : ∀ a o, m.heap.get? a = some o →
      o.links = [] ∧ (∀ G, o ≠ .generator G) ∧ ∀ c, o ≠ .code c)
    (hc : m.context = none) : m.Sound where
  heap := Heap.wf_of_inert fun a o ho => ⟨(hinert a o ho).1, (hinert a o ho).2.1⟩
  context a ha := by
    rw [hc] at ha
    cases ha
  profiled a c hca := absurd rfl ((hinert a _ hca).2.2 c)
  owners a _ c _ hca _ := absurd rfl ((hinert a _ hca).2.2 c)
  caches _ a c _ _ hca _ := absurd rfl ((hinert a _ hca).2.2 c)

theorem boot_native (ho : (boot config fastPaths).heap.get? a = some o) : ∃ n, o = .native n := by
  unfold boot at ho
  refine List.foldlRecOn (motive := fun x : Heap × Array (String × Value) =>
      ∀ a o, x.1.get? a = some o → ∃ n, o = .native n) Builtin.all _
    (fun a o h => by simp [Heap.get?] at h) (fun x hx b _ a o h => ?_) a o ho
  rcases Heap.get?_alloc_cases h with h | ⟨_, rfl⟩
  · exact hx a o h
  · exact ⟨_, rfl⟩

theorem ready_inert (ho : (ready config fastPaths hosts).heap.get? a = some o) :
    (∃ n, o = .native n) ∨ ∃ p ∈ hosts, o = .object p := by
  refine List.foldlRecOn (motive := fun h : Heap =>
      ∀ a o, h.get? a = some o → (∃ n, o = .native n) ∨ ∃ p ∈ hosts, o = .object p) hosts _
    (fun a o h => .inl (boot_native h)) (fun h hh p hp a o ho => ?_) a o ho
  rcases Heap.get?_alloc_cases ho with ho | ⟨_, rfl⟩
  · exact hh a o ho
  · exact .inr ⟨p, hp, rfl⟩

theorem sound_ready : (ready config fastPaths hosts).Sound :=
  sound_of_inert (fun _ _ ho => by
    rcases ready_inert ho with ⟨_, rfl⟩ | ⟨_, _, rfl⟩ <;>
      exact ⟨rfl, (fun _ h => by cases h), fun _ h => by cases h⟩) rfl

theorem erase_ready :
    (ready config fastPaths hosts).erase = ready { config with specialize := false } fastPaths hosts := by
  simp only [erase, ready, boot, List.map_toArray]
  rfl

end Machine

/-- Host objects that report one layout give every name one slot: the contract host objects
honour. -/
def HostsAgree (hosts : List HostObject) : Prop :=
  ∀ p ∈ hosts, ∀ q ∈ hosts, ∀ s, p.shape = some s → q.shape = some s → ∀ n, p.slotOf n = q.slotOf n

theorem HostsAgree.coherent {config : Config} {fastPaths : Bool} {hosts : List HostObject}
    (hagree : HostsAgree hosts) : (Machine.ready config fastPaths hosts).heap.HostsCoherent := by
  intro a b p q s hp hq hps hqs n
  rcases Machine.ready_inert hp with ⟨_, hpn⟩ | ⟨p', hp', hpp⟩
  · cases hpn
  rcases Machine.ready_inert hq with ⟨_, hqn⟩ | ⟨q', hq', hqq⟩
  · cases hqn
  cases hpp
  cases hqq
  exact hagree p hp' q hq' s hps hqs n

/-! ### Placing a code unit -/

theorem Profile.erase_new (n : Nat) : (Profile.new n).erase = Profile.new n := by
  simp only [Profile.erase, Profile.new, Array.map_replicate]

theorem Frame.Sound.alloc {h : Heap} {f : Frame} (hf : f.Sound h) (o : Obj) :
    f.Sound (h.alloc o).1 :=
  ⟨Heap.get?_alloc_of_get? hf.code, fun hd m => Heap.isExc_alloc (hf.handled hd m) o,
    fun a ha => Heap.isExc_alloc (hf.inherited a ha) o⟩

theorem Heap.WF.alloc_inert {h : Heap} {o : Obj} (hwf : h.WF) (hlinks : o.links = [])
    (hgen : ∀ G, o ≠ .generator G) : (h.alloc o).1.WF where
  generators a G hg := by
    rcases get?_alloc_cases hg with hg | ⟨_, ho⟩
    · exact hwf.generators a G hg
    · exact absurd ho.symm (hgen G)
  parked a G f hg hf := by
    rcases get?_alloc_cases hg with hg | ⟨_, ho⟩
    · exact (hwf.parked a G f hg hf).alloc o
    · exact absurd ho.symm (hgen G)
  chain := by
    have hold : ∀ a b, (h.alloc o).1.Link a b → h.Link a b := by
      intro a b hab
      unfold Link at hab ⊢
      by_cases ha : a = h.objs.size
      · rw [ha, Vm.links_alloc_new, hlinks] at hab
        cases hab
      · rwa [Vm.links_alloc_old ha] at hab
    exact ⟨fun a b hab => isExc_alloc (hwf.chain.links a b (hold a b hab)) o,
      hwf.chain.acyclic.mono hold⟩

/-- A guess stays right on a machine whose store keeps every object and has no new host object,
with the same builtins. -/
theorem SiteCache.SoundAt.of_store {m m' : Machine} {c : SiteCache} {u : CodeUnit} {pc : Nat}
    (hc : c.SoundAt m u pc) (hkeep : ∀ a o, m.heap.get? a = some o → m'.heap.get? a = some o)
    (hobj : ∀ a p, m'.heap.get? a = some (.object p) → m.heap.get? a = some (.object p))
    (hb : m'.builtins = m.builtins) : c.SoundAt m' u pc := by
  cases c with
  | global ga v value =>
    obtain ⟨g, hg, hv, hval⟩ := hc
    refine ⟨g, hkeep _ _ hg, hv, fun hv' => ?_⟩
    rw [hb]
    exact hval hv'
  | attr shape slot => exact fun a p hp hs => hc a p (hobj a p hp) hs
  | call fa =>
    obtain ⟨fn, c, hfn, hc', hd⟩ := hc
    exact ⟨fn, c, hkeep _ _ hfn, hkeep _ _ hc', hd⟩
  | strStr => exact hc
  | unresolved | intInt | floatFloat | generic => trivial

/-- Placing a code object with a profile of its own, whose sites have not settled, keeps the
machine sound: no other code object runs under that profile. -/
theorem Machine.Sound.load {m : Machine} (hs : m.Sound) (c : CodeObj)
    (hp : c.profile = m.profiles.size) (n : Nat) :
    ({ m with profiles := m.profiles.push (Profile.new n), heap := (m.heap.alloc (.code c)).1 } :
      Machine).Sound where
  heap := hs.heap.alloc_inert rfl fun _ h => by cases h
  context a ha := Heap.isExc_alloc (hs.context a ha) _
  profiled a c' hc' := by
    rw [Array.size_push]
    rcases Heap.get?_alloc_cases hc' with hc' | ⟨_, hcc⟩
    · exact Nat.lt_succ_of_lt (hs.profiled a c' hc')
    · cases hcc
      rw [hp]
      exact Nat.lt_succ_self _
  owners a b c₁ c₂ h₁ h₂ heq := by
    rcases Heap.get?_alloc_cases h₁ with h₁ | ⟨_, h₁⟩ <;>
      rcases Heap.get?_alloc_cases h₂ with h₂ | ⟨_, h₂⟩
    · exact hs.owners a b c₁ c₂ h₁ h₂ heq
    · cases h₂
      exact absurd (hs.profiled a c₁ h₁) (by rw [heq, hp]; exact Nat.lt_irrefl _)
    · cases h₁
      exact absurd (hs.profiled b c₂ h₂) (by rw [← heq, hp]; exact Nat.lt_irrefl _)
    · cases h₁
      cases h₂
      rfl
  caches hco a c' pc s hc' hsite := by
    rcases Heap.get?_alloc_cases hc' with hc' | ⟨_, hcc⟩
    · have hlt := hs.profiled a c' hc'
      have hsite' : m.siteAt c'.profile pc = some s := by
        rw [← hsite]
        simp only [Machine.siteAt, Array.getElem?_push_lt hlt, Array.getElem?_eq_getElem hlt]
      refine (hs.caches hco.of_alloc a c' pc s hc' hsite').of_store
        (fun _ _ h => Heap.get?_alloc_of_get? h) (fun b p hb => ?_) rfl
      rcases Heap.get?_alloc_cases hb with hb | ⟨_, hbc⟩
      · exact hb
      · cases hbc
    · cases hcc
      simp only [Machine.siteAt, hp, Array.getElem?_push_size, Option.bind_some, Profile.new,
        Array.getElem?_replicate] at hsite
      split at hsite
      · cases hsite
        trivial
      · cases hsite

/-! ### Serving a request -/

/-- What a computation does to a sound machine as one request: it ends sound, every generator
moves only forward, host objects that agreed still agree, and the computation runs alike on the
erased machine when they do. -/
structure Served {α : Type} (x : Vm α) (m : Machine) : Prop where
  sound : (x m).state.Sound
  generators : ∀ g G, m.heap.get? g = some (.generator G) →
    ∃ G', (x m).state.heap.get? g = some (.generator G') ∧ G.Stays G'
  hosts : m.heap.HostsCoherent → (x m).state.heap.HostsCoherent
  erase : m.heap.HostsCoherent → x m.erase = (x m).mapState Machine.erase

namespace Served

variable {α β : Type} {x : Vm α} {m : Machine}

theorem of_good {Q : α → Machine → Prop} {E : Fault → Machine → Prop} (g : Good x m Q E) :
    Served x m :=
  ⟨g.sound, fun _ _ hg => g.evolves.heap.generator hg, fun hco => hco.evolves g.evolves.heap,
    g.erase⟩

/-- A computation that stops at one machine, and at its erasure from the erased one, keeping
every generator. -/
theorem of_ok {m' : Machine} {v : α} (hrun : x m = .ok v m')
    (herase : m.heap.HostsCoherent → x m.erase = .ok v m'.erase) (hs : m'.Sound)
    (hgen : ∀ g G, m.heap.get? g = some (.generator G) → m'.heap.get? g = some (.generator G))
    (hhost : m.heap.HostsCoherent → m'.heap.HostsCoherent) : Served x m := by
  refine ⟨?_, fun g G hg => ⟨G, ?_, .refl G⟩, fun hco => ?_, fun hco => ?_⟩
  · rw [hrun]
    exact hs
  · rw [hrun]
    exact hgen g G hg
  · rw [hrun]
    exact hhost hco
  · rw [herase hco, hrun]
    rfl

theorem bind_of_good {f : α → Vm β} {Q : α → Machine → Prop} {E : Fault → Machine → Prop}
    (gx : Good x m Q E) (hf : ∀ v m', x m = .ok v m' → m'.Sound → Served (f v) m') :
    Served (x >>= f) m := by
  cases hxm : x m with
  | ok v m' =>
    have hrun : (x >>= f) m = f v m' := EStateM.run_bind_of_ok hxm
    have he := gx.evolves_ok hxm
    have gf := hf v m' hxm (gx.sound_ok hxm)
    refine ⟨hrun ▸ gf.sound, fun g G hg => ?_, fun hco => hrun ▸ gf.hosts (hco.evolves he.heap),
      fun hco => ?_⟩
    · obtain ⟨G₁, hg₁, hst₁⟩ := he.heap.generator hg
      obtain ⟨G₂, hg₂, hst₂⟩ := gf.generators g G₁ hg₁
      exact ⟨G₂, hrun ▸ hg₂, hst₁.trans hst₂⟩
    · have hxe := gx.erase hco
      rw [hxm, EStateM.Result.mapState_ok] at hxe
      rw [hrun]
      exact (EStateM.run_bind_of_ok hxe).trans (gf.erase (hco.evolves he.heap))
  | error e m' =>
    have hrun : (x >>= f) m = .error e m' := EStateM.run_bind_of_error hxm
    have he := gx.evolves_error hxm
    refine ⟨hrun ▸ gx.sound_error hxm, fun g G hg => hrun ▸ he.heap.generator hg,
      fun hco => hrun ▸ hco.evolves he.heap, fun hco => ?_⟩
    have hxe := gx.erase hco
    rw [hxm, EStateM.Result.mapState_error] at hxe
    rw [hrun]
    exact EStateM.run_bind_of_error hxe

theorem map (hx : Served x m) (f : α → β) : Served (f <$> x) m := by
  show Served (x >>= fun a => Pure.pure (f a)) m
  obtain ⟨hs, hg, hh, he⟩ := hx
  cases hxm : x m with
  | ok v m' =>
    rw [hxm] at hs hg hh he
    have hrun : (x >>= fun a => Pure.pure (f a)) m = .ok (f v) m' := EStateM.run_bind_of_ok hxm
    refine ⟨hrun ▸ hs, fun g G h => hrun ▸ hg g G h, fun hco => hrun ▸ hh hco, fun hco => ?_⟩
    rw [hrun]
    exact EStateM.run_bind_of_ok (he hco)
  | error e m' =>
    rw [hxm] at hs hg hh he
    have hrun : (x >>= fun a => Pure.pure (f a)) m = .error e m' := EStateM.run_bind_of_error hxm
    refine ⟨hrun ▸ hs, fun g G h => hrun ▸ hg g G h, fun hco => hrun ▸ hh hco, fun hco => ?_⟩
    rw [hrun]
    exact EStateM.run_bind_of_error (he hco)

end Served

theorem served_newCode {m : Machine} (hs : m.Sound) (u : CodeUnit) : Served (Vm.newCode u) m := by
  unfold Vm.newCode
  refine Served.bind_of_good (Safe.mapM_array (fun _ => Vm.safe_str _) _ m hs trivial)
    fun strings m₁ _ hs₁ => ?_
  refine Served.bind_of_good (Safe.mapM_array (fun _ => Vm.safe_int _) _ m₁ hs₁ trivial)
    fun bigInts m₂ _ hs₂ => ?_
  refine Served.bind_of_good (Safe.mapM_array (fun b => (Vm.safe_alloc (.bytes b) trivial).bind
    fun _ => Safe.pure _) _ m₂ hs₂ trivial) fun bytes m₃ _ hs₃ => ?_
  refine Served.of_ok rfl (fun _ => ?_) (hs₃.load _ rfl _) (fun _ _ hg => Heap.get?_alloc_of_get? hg)
    fun hco => hco.alloc fun _ h => by cases h
  show EStateM.Result.ok _ _ = EStateM.Result.ok _ _
  simp only [Machine.erase, Array.size_map, Array.map_push, Profile.erase_new]

theorem Served.of_safe {α : Type} {x : Vm α} {m : Machine} (hx : Safe x) (hs : m.Sound) :
    Served x m :=
  .of_good (hx m hs trivial)

theorem Obj.Placeable.links_eq_nil {o : Obj} (ho : o.Placeable) : o.links = [] := by
  cases o with
  | exception e => simp only [Obj.links, ho.1, ho.2, Option.toList_none, List.append_nil]
  | _ => rfl

namespace Vm

theorem safe_place {o : Obj} (ho : o.Placeable) : Safe (alloc o) := by
  refine spec_alloc ⟨fun c h => ?_, fun p h => ?_⟩ (fun G h => ?_) (fun _ _ _ b hb => ?_)
    fun _ _ _ => trivial
  · subst h
    exact ho.elim
  · subst h
    exact ho.elim
  · subst h
    exact ho.elim
  · rw [ho.links_eq_nil] at hb
    cases hb

theorem safe_bindGlobal (a : Addr) (name : String) (v : Value) :
    Safe (modifyObj a (Obj.mapGlobals (·.set name v))) :=
  spec_modifyObj (fun _ _ _ o _ => .mapGlobals (fun _ => Globals.precedes_of_version rfl) o)
    (fun _ hs _ => hs.modify_globals fun _ _ => Globals.precedes_of_version rfl)
    fun _ _ _ => trivial

theorem safe_invoke (code globals : Addr) (args : Array Value) (closure : Array Addr) :
    Safe (invoke code globals args closure) :=
  (safe_newFunction code globals #[] closure).bind fun f =>
    safe_callFunction (kit_sound nestingBudget) f args

end Vm

/-- Every request a client may make is served on a sound machine. -/
theorem Request.served {r : Request} (hr : r.Allowed) {m : Machine} (hs : m.Sound) :
    Served r.run m := by
  have hk := kit_sound nestingBudget
  cases r with
  | load u => exact (served_newCode hs u).map _
  | place o => exact .of_safe ((Vm.safe_place hr).map _) hs
  | bind a name v => exact .of_safe ((Vm.safe_bindGlobal a name v).map _) hs
  | invoke code globals args closure => exact .of_safe ((Vm.safe_invoke _ _ _ _).map _) hs
  | call c args => exact .of_safe ((Vm.safe_callValue hk c args).map _) hs
  | advance v => exact .of_safe ((Vm.safe_nextValue hk v).map _) hs
  | drainAll v => exact .of_safe ((Vm.safe_iterate hk v).map _) hs
  | resume g v =>
    exact .of_good (((Vm.spec_resumeGenerator hk g (.send v)).map (g := Reply.step)) m hs
      fun _ h => by cases h)
  | send g v => exact .of_safe ((Vm.safe_generatorSend hk g v).map _) hs
  | throwInto g v => exact .of_safe ((Vm.safe_generatorThrow hk g v).map _) hs
  | close g => exact .of_safe ((Vm.safe_closeGenerator hk g).map _) hs

/-- Every reachable machine is sound. -/
theorem Reachable.sound {m : Machine} (hm : Reachable m) : m.Sound := by
  induction hm with
  | ready config fastPaths hosts => exact Machine.sound_ready
  | serve r hr _ ih => exact (Request.served hr ih).sound

/-- In every reachable state the context and cause links join exceptions of the store and close
no cycle; the search the engine runs before it makes a link answers exactly on that graph, so it
never finds an exception that reaches itself. -/
theorem exception_chains_acyclic {m : Machine} (hm : Reachable m) :
    m.heap.ChainSound ∧
      (∀ a b, Vm.chainReaches m.heap a b = true ↔ Relation.TransGen m.heap.Link a b) ∧
      ∀ a, Vm.chainReaches m.heap a a = false := by
  have hc := hm.sound.heap.chain
  refine ⟨hc, Vm.chainReaches_iff m.heap, fun a => ?_⟩
  rw [Bool.eq_false_iff, ne_eq, Vm.chainReaches_iff]
  exact hc.acyclic a

/-- A call of an exception class, served on a fresh machine, leaves the chain acyclic. -/
theorem raised_class_chains_acyclic :
    ((Request.call (.excType .valueError) #[]).run (Machine.ready {} false [])).state.heap.ChainSound ∧
      (∀ a b, Vm.chainReaches
          ((Request.call (.excType .valueError) #[]).run (Machine.ready {} false [])).state.heap a b =
            true ↔ Relation.TransGen
          ((Request.call (.excType .valueError) #[]).run (Machine.ready {} false [])).state.heap.Link a b) ∧
      ∀ a, Vm.chainReaches
          ((Request.call (.excType .valueError) #[]).run (Machine.ready {} false [])).state.heap a a =
        false :=
  exception_chains_acyclic (.serve _ trivial (.ready {} false []))

end StackVm
