import StackVm.Proofs.Engine.Sites

/-! Calls from the operand stack keep the invariants with their sites.  A call site remembers a
function that takes the call's arguments as they are; calling such a function binds nothing, so
running it directly is what the call would do (`Kit.Sound.direct`).  A kit is sound when its
operations keep the invariants and its calls have that property. -/

namespace StackVm

open EngineState

/-- The function a callable value refers to, with its address. -/
def Heap.functionAt (h : Heap) (callable : Value) : Option (Addr × Function) :=
  match callable with
  | .ref a => match h.get? a with
    | some (.function f) => some (a, f)
    | _ => none
  | _ => none

theorem Heap.functionAt_some {h : Heap} {callable : Value} {a : Addr} {f : Function}
    (hf : h.functionAt callable = some (a, f)) :
    callable = .ref a ∧ h.get? a = some (.function f) := by
  unfold Heap.functionAt at hf
  split at hf
  · next b =>
    split at hf
    · next g hg =>
      cases hf
      exact ⟨rfl, hg⟩
    · cases hf
  · cases hf

/-- What a call site's answer promises: no target, or the callable itself, a function that runs
the call's arguments without binding (when host objects agree on layouts). -/
def Active.CallAnswer (s : Active) (callable : Value) : Option Addr → Prop
  | none => True
  | some a => callable = .ref a ∧ (s.machine.heap.HostsCoherent →
      (SiteCache.call a).SoundAt s.machine s.frame.unit s.frame.instrPc)

/-- A kit whose operations keep the invariants, and whose call of a function that runs the
arguments as they are is the run of that function. -/
structure Kit.Sound (k : Kit) : Prop where
  call : ∀ c args, Safe (k.call c args)
  run : ∀ a args, Safe (k.run a args)
  next : ∀ v, Safe (k.next v)
  direct : ∀ (m : Machine) a fn c args, m.heap.get? a = some (.function fn) →
    m.heap.get? fn.code = some (.code c) → c.unit.Direct args.size →
    k.call (.ref a) args m = k.run a args m

namespace Act

variable {α : Type}

/-- A call site's answer when its guess did not hold: an open site settles on a target that
runs without binding, and gives up on any other; a settled site misses. -/
def callSettling (s : Site) (h : Heap) (target : Option (Addr × Function)) (argc : Nat) :
    Act (Option Addr) := do
  if s.isUnresolved then
    match target with
    | some (a, f) =>
      let direct := match h.get? f.code with
        | some (.code c) =>
          !c.unit.flags.hasVarargs && c.unit.argCount == argc && c.unit.generatorKind.isNone
        | _ => false
      if direct then
        settle s (.call a)
        return some a
      settle s .generic
      return none
    | none =>
      settle s .generic
      return none
  if !s.isGeneric then missAt s
  return none

theorem callTarget_eq (callable : Value) (argc : Nat) : callTarget callable argc = (do
    if !(← specializing) then return none
    let some s ← site | return none
    let h ← heap
    let target := h.functionAt callable
    if let .call c := s.cache then
      if let some (a, _) := target then
        if c == a then
          hit
          return some a
    callSettling s h target argc) := rfl

theorem quietly_callSettling {s : Active} (st : Site) (callable : Value) {argc : Nat}
    (hargc : argc = s.frame.unit.argcAt s.frame.instrPc) :
    Quietly (callSettling st s.machine.heap (s.machine.heap.functionAt callable) argc) s
      (s.CallAnswer callable) := by
  unfold callSettling
  split
  · split
    · next a f htarget =>
      obtain ⟨rfl, hfn⟩ := Heap.functionAt_some htarget
      have generic : Quietly (do settle st .generic; pure none) s (s.CallAnswer (.ref a)) :=
        .bind (Unnoticed.settle st SiteCache.vacuous_generic) fun _ _ _ => .pure trivial
      dsimp only
      split
      · next c hc =>
        split
        · next hdirect =>
          simp only [Bool.and_eq_true, Bool.not_eq_true', beq_iff_eq,
            Option.isNone_iff_eq_none] at hdirect
          have hsound : (SiteCache.call a).SoundAt s.machine s.frame.unit s.frame.instrPc :=
            ⟨f, c, hfn, hc, ⟨hdirect.1.1, hdirect.1.2.trans hargc, hdirect.2⟩⟩
          obtain ⟨s₁, hsettle, hu⟩ := settle_unseen st fun _ _ => hsound
          exact .after hu (Quietly.pure (a := some a) ⟨rfl, fun _ => hsound⟩)
            (EStateM.run_bind_of_ok hsettle)
        · exact generic
      · exact generic
    · exact .bind (Unnoticed.settle st SiteCache.vacuous_generic) fun _ _ _ => .pure trivial
  · split
    · exact .bind (Unnoticed.missAt st) fun _ _ _ => .pure trivial
    · exact .pure trivial

/-- A call site answers, after bookkeeping, no target or the callable itself as a function that
runs the call's arguments without binding: on a hit the site remembers such a function. -/
theorem quietly_callTarget {s : Active} (hs : s.Sound) (callable : Value) {argc : Nat}
    (hargc : argc = s.frame.unit.argcAt s.frame.instrPc) :
    Quietly (callTarget callable argc) s (s.CallAnswer callable) := by
  rw [callTarget_eq]
  refine .of_eq (specializing_bind_run _ s) ?_
  cases s.machine.config.specialize
  · exact .pure trivial
  refine .of_eq (site_bind_run _ s) ?_
  split
  · next st hsite =>
    refine .of_eq (heap_bind_run _ s) ?_
    have settling := quietly_callSettling st callable hargc
    dsimp only
    split
    · next c hc =>
      split
      · next a f htarget =>
        split
        · next hca =>
          refine .bind Unnoticed.hit fun _ _ _ => Quietly.pure (a := some a)
            ⟨(Heap.functionAt_some htarget).1, fun hco => ?_⟩
          have hsound := hs.machine.caches hco _ _ _ _ hs.frame.code hsite
          rwa [hc, beq_iff_eq.1 hca] at hsound
        · exact settling
      · exact settling
    · exact settling
  · exact .pure trivial

/-! ### Calls from the operand stack -/

/-- A fact about an activation that does not read the operand stack. -/
def StackFree (I : Active → Prop) : Prop :=
  ∀ s (stk : Array Value), I s → I ⟨s.machine, { s.frame with stack := stk }⟩

theorem spec_peek {I : Active → Prop} : Triple I peek (fun _ s => I s) := by
  unfold peek
  refine (Triple.reads (Q := fun _ s => I s) fun _ _ hp => hp).bind fun top => ?_
  split
  · exact Triple.pure fun _ _ hp => hp
  · exact (spec_stackFault false).bind fun _ =>
      Triple.throw (fun _ _ _ => trivial) fun _ _ hp a h => absurd h (hp.2 a)

theorem spec_pop {I : Active → Prop} (hI : StackFree I) : Triple I pop (fun _ s => I s) :=
  spec_peek.bind fun _ => (Triple.modifyFrame fun s hs hp =>
    ⟨hs.frame.alike ⟨rfl, rfl, rfl, rfl⟩, hI s _ hp⟩).bind fun _ => Triple.pure fun _ _ hp => hp

theorem spec_popN {I : Active → Prop} (hI : StackFree I) (n : Nat) :
    Triple I (popN n) (fun items s => I s ∧ items.size = n) := by
  unfold popN
  refine (Triple.reads (Q := fun size s => I s ∧ size = s.frame.stack.size)
    fun s _ hp => ⟨hp, rfl⟩).bind fun size => ?_
  refine Triple.ite (fun _ => ?_) fun hle => ?_
  · exact (spec_stackFault false).bind fun _ =>
      Triple.throw_bind (fun _ _ _ => trivial) fun _ _ hp a h => absurd h (hp.2 a)
  · refine (Triple.reads (Q := fun items s => I s ∧ items.size = n)
      fun s _ hp => ⟨hp.1, ?_⟩).bind fun items => ?_
    · rw [Array.size_extract, ← hp.2]
      omega
    exact (Triple.modifyFrame fun s hs hp => ⟨hs.frame.alike ⟨rfl, rfl, rfl, rfl⟩, hI s _ hp.1,
      hp.2⟩).bind fun _ => Triple.pure fun _ _ hp => hp

theorem withContext_congr {x x' : Vm α} {s : Active}
    (h : x { s.machine with context := s.frame.currentHandled } =
      x' { s.machine with context := s.frame.currentHandled }) :
    withContext x s = withContext x' s := by
  obtain ⟨m, f⟩ := s
  simp only [withContext, h]

/-- A call from the stack keeps the invariants with its site: a function the site runs without
binding is run as its call would run it. -/
theorem spec_callFromStack {k : Kit} (hk : k.Sound) (argc : Nat) :
    Triple (fun s => argc = s.frame.unit.argcAt s.frame.instrPc) (callFromStack k argc)
      (fun _ _ => True) := by
  unfold callFromStack
  refine (spec_popN (fun _ _ h => h) argc).bind fun args => ?_
  refine (spec_pop (fun _ _ h => h)).bind fun callable => ?_
  have hy : Safe (withContext (k.call callable args) >>= push) :=
    (safe_withContext (hk.call _ _)).bind fun _ => safe_push _
  refine Triple.of_shadows hy (fun _ => rfl) fun s hs ⟨hargc, hsize⟩ => ?_
  obtain ⟨r, s₁, hrun, hu, hr⟩ := quietly_callTarget hs callable hargc
  cases r with
  | none => exact .of_run hy hu (EStateM.run_bind_of_ok hrun)
  | some a =>
    obtain ⟨rfl, hdirect⟩ := hr
    refine ⟨s₁, withContext (k.run a args) >>= push, hu,
      (safe_withContext (hk.run _ _)).bind fun _ => safe_push _, EStateM.run_bind_of_ok hrun,
      fun hco => ⟨s₁, hu, ?_⟩⟩
    obtain ⟨fn, c, hfn, hc, hd⟩ := hdirect hco
    have hrun' : withContext (k.run a args) s₁ = withContext (k.call (.ref a) args) s₁ := by
      refine withContext_congr (hk.direct _ a fn c args ?_ ?_ ?_).symm
      · rw [← hu.heap] at hfn
        exact hfn
      · rw [← hu.heap] at hc
        exact hc
      · rw [hsize, hargc]
        exact hd
    show EStateM.Result.mapState _ (EStateM.bind _ _ s₁) =
      EStateM.Result.mapState _ (EStateM.bind _ _ s₁)
    simp only [EStateM.bind, hrun']

end Act

end StackVm
