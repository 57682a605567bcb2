import StackVm.Proofs.Engine.Resume

/-! Every operation of the engine keeps the invariants.  Advancing, sending to, throwing into and
closing a generator resume its body; builtins and bound methods read and change ordinary objects
and call back into the engine; a call runs a function, a native or an exception class.  Each of
them is safe when the kit it calls back through is, so by induction on the nesting levels left
every kit the engine hands down is sound (`kit_sound`), and with it every operation the engine
offers from outside a frame. -/

namespace StackVm

namespace Vm

variable {α : Type} {k : Kit}

/-! ### Generators -/

theorem safe_nextValue (hk : k.Sound) (v : Value) : Safe (nextValue k v) := by
  refine safe_get_bind (fun m => ?_) fun _ => rfl
  dsimp only
  split
  · exact Ops.safe_iterNext _ _
  · refine Safe.ite (fun _ => Safe.pure _) fun _ => ?_
    refine ((spec_resumeGenerator hk _ _).mono (fun _ _ _ h => by cases h) (fun _ _ _ => trivial)
      fun _ _ h => h).bind fun r => ?_
    split
    · exact Safe.pure _
    · exact Safe.pure _
  · exact safe_raiseMsg _ _

theorem safe_iterate (hk : k.Sound) (v : Value) : Safe (iterate k v) :=
  safe_iterateWith (safe_nextValue hk) v

theorem spec_resumeSignal (hk : k.Sound) (g : Addr) (resume : Resume) (kind : GeneratorKind) :
    Triple (fun m => ∀ exc, resume = .throw exc → m.heap.IsExc exc) (do
      match ← resumeGenerator k g resume with
      | .yielded x => pure x
      | .returned x => completionSignal kind x) (fun _ _ => True) := by
  refine ((spec_resumeGenerator hk g resume).mono (fun _ h => h) (fun _ _ _ => trivial)
    fun _ _ h => h).bind fun r => ?_
  split
  · exact Safe.pure _
  · exact spec_completionSignal _ _

theorem safe_generatorSend (hk : k.Sound) (g : Addr) (v : Value) :
    Safe (generatorSend k g v) :=
  ((spec_generator g).mono (fun _ h => h) (fun _ _ _ => trivial) fun _ _ h => h).bind fun _ =>
    (spec_resumeSignal hk g _ _).mono (fun _ _ _ h => by cases h) (fun _ _ h => h) fun _ _ h => h

theorem safe_generatorThrow (hk : k.Sound) (g : Addr) (v : Value) :
    Safe (generatorThrow k g v) := by
  refine ((spec_excOfValue v).mono (fun _ h => h) (fun _ _ h => h) fun _ _ _ => trivial).bind
    fun exc => ?_
  refine (((safe_dropContext exc).keepExc exc).mono (fun _ h => h) (fun _ _ h => h)
    fun _ _ _ => trivial).bind fun _ => ?_
  refine ((spec_generator g).mono (fun _ h => h) (fun _ _ h => h.1) fun _ _ _ => trivial).bind
    fun _ => ?_
  exact (spec_resumeSignal hk g _ _).mono (fun _ h exc' he => by cases he; exact h)
    (fun _ _ h => h) fun _ _ h => h

theorem spec_finish_idle {g : Addr} {E : Fault → Machine → Prop} :
    Triple (fun m => ∃ G : Generator, m.heap.get? g = some (.generator G) ∧ G.running = false)
      (modifyGenerator g Generator.finish) (fun _ _ => True) E := by
  intro m hs hp
  obtain ⟨G, hg, hr⟩ := hp
  exact ((spec_finish (E := E) hr).mono (fun _ h => h) (fun _ _ _ => trivial) fun _ _ h => h) m hs hg

/-- Closing refuses a running generator, finishes one that cannot be suspended, and otherwise
throws a new `GeneratorExit` in and reads what the body does with it. -/
theorem safe_closeGenerator (hk : k.Sound) (g : Addr) : Safe (closeGenerator k g) := by
  unfold closeGenerator
  refine ((spec_generator g).mono (fun _ h => h) (fun _ _ h => h.2) fun _ _ _ => trivial).bind
    fun st => ?_
  extract_lets kind resumeIdle
  refine Triple.ite (fun _ =>
    (spec_alreadyExecuting (Q := fun _ _ => False) kind).bind fun _ => Triple.of_false) fun hr => ?_
  have hr : st.running = false := Bool.eq_false_iff.2 hr
  dsimp only [resumeIdle]
  refine Triple.ite (fun _ => ((spec_finish (E := fun _ _ => True) hr).mono (fun _ h => h)
    (fun _ _ _ => trivial) fun _ _ _ => trivial).bind fun _ => Safe.pure _) fun _ => ?_
  refine Triple.bind (Q := fun a m => m.heap.IsExc a)
    (spec_newExc (fun _ _ _ b hb => by cases hb) fun _ _ _ => ⟨_, Heap.get?_alloc _ _⟩)
    fun signal => ?_
  refine (Triple.catching (F := fun _ _ => True) ((spec_resumeGenerator hk g _).mono
    (fun _ h exc he => by cases he; exact h) (fun _ _ h => h) fun _ _ h => h)).bind fun r => ?_
  split
  · exact (spec_finish_idle.mono (fun _ h => h.1 _ rfl) (fun _ _ h => h) fun _ _ h => h).bind
      fun _ => spec_raiseKind _ _ _
  · exact Triple.pure fun _ _ _ => trivial
  · next a =>
    refine ((spec_exc a).mono (fun _ h => h) (fun _ _ h => h.1) fun _ _ _ => trivial).bind
      fun _ => ?_
    exact Triple.ite (fun _ => Triple.pure fun _ _ _ => trivial) fun _ =>
      Triple.throw (fun _ _ _ => trivial) fun _ _ h => (h.2 _ rfl).2
  · next e _ => exact Triple.throw (fun _ _ _ => trivial) fun _ _ h => (h.2 e rfl).2

/-! ### Natives and calls -/

theorem safe_arity (name : String) (args : Array Value) (lo hi : Nat) :
    Safe (arity name args lo hi) :=
  Safe.ite (fun _ => safe_raise _) fun _ => Safe.pure _

theorem safe_exactArity (name : String) (args : Array Value) (n : Nat) :
    Safe (exactArity name args n) :=
  Safe.ite (fun _ => safe_raiseMsg _ _) fun _ => Safe.pure _

theorem safe_rangeBound (v : Value) : Safe (rangeBound v) := by
  refine safe_get_bind (fun m => ?_) fun _ => rfl
  dsimp only
  split
  case h_1 | h_2 => exact Safe.pure _
  all_goals exact safe_raiseMsg _ _

theorem safe_listItems (a : Addr) : Safe (listItems a) := by
  unfold listItems
  refine ((spec_obj a).mono (fun _ h => h) (fun _ _ _ => trivial) fun _ _ _ => trivial).bind
    fun o => ?_
  split
  · exact Safe.pure _
  · exact safe_internal _

theorem safe_dictEntries (a : Addr) : Safe (dictEntries a) := by
  unfold dictEntries
  refine ((spec_obj a).mono (fun _ h => h) (fun _ _ _ => trivial) fun _ _ _ => trivial).bind
    fun o => ?_
  split
  · exact Safe.pure _
  · exact safe_internal _

theorem safe_alloc_iterator (it : Iter) : Safe (alloc (.iterator it)) := safe_alloc _ trivial

theorem safe_callBuiltin (hk : k.Sound) (b : Builtin) (args : Array Value) :
    Safe (callBuiltin k b args) := by
  unfold callBuiltin
  dsimp only
  cases b
  all_goals
    dsimp only
    repeat' with_reducible first
      | exact Safe.pure _
      | exact safe_arity _ _ _ _
      | exact safe_ofExcept _
      | exact safe_raiseMsg _ _
      | exact safe_raise _
      | exact safe_alloc_iterator _
      | exact safe_list _
      | exact safe_tuple _
      | exact safe_int _
      | exact safe_str _
      | exact safe_iterate hk _
      | exact safe_nextValue hk _
      | exact Ops.safe_getIter _
      | exact Safe.mapM_array safe_rangeBound _
      | exact Safe.foldlM_array (fun _ _ => Ops.safe_binary _ _ _) _ _
      | refine safe_get_bind (fun _ => ?_) fun _ => rfl
      | refine Safe.ite (fun _ => ?_) fun _ => ?_
      | refine Safe.bind ?_ fun _ => ?_
      | split

theorem safe_callNative (hk : k.Sound) (n : Native) (args : Array Value) :
    Safe (callNative k n args) := by
  unfold callNative
  dsimp only
  cases n
  all_goals
    dsimp only
    repeat' with_reducible first
      | exact Safe.pure _
      | exact safe_callBuiltin hk _ _
      | exact safe_exactArity _ _ _
      | exact safe_modifyObj_plain _ (Obj.plain_mapList _)
      | exact safe_iterate hk _
      | exact safe_listItems _
      | exact safe_dictEntries _
      | exact safe_ofExcept _
      | exact safe_raiseMsg _ _
      | exact safe_list _
      | exact Safe.mapM_array (fun _ => safe_tuple _) _
      | exact safe_generatorSend hk _ _
      | exact safe_generatorThrow hk _ _
      | exact safe_closeGenerator hk _
      | refine safe_get_bind (fun _ => ?_) fun _ => rfl
      | refine Safe.ite (fun _ => ?_) fun _ => ?_
      | refine Safe.bind ?_ fun _ => ?_
      | split

theorem safe_callValue (hk : k.Sound) (callable : Value) (args : Array Value) :
    Safe (callValue k callable args) := by
  refine safe_get_bind (fun m => ?_) fun _ => rfl
  dsimp only
  split
  · exact safe_callFunction hk _ _
  · exact safe_callNative hk _ _
  · exact (safe_instantiate _ _).bind fun _ => Safe.pure _
  · exact safe_raise _

end Vm

/-- Every kit the engine hands down is sound: by induction on the nesting levels left, an
exhausted kit failing on every operation. -/
theorem kit_sound : ∀ n, (kit n).Sound
  | 0 => ⟨(fun _ _ => Safe.throw fun _ h => by cases h), (fun _ _ => Safe.throw fun _ h => by cases h),
      (fun _ => Safe.throw fun _ h => by cases h), fun _ _ _ _ _ _ _ _ => rfl⟩
  | n + 1 => ⟨fun _ _ => Vm.safe_callValue (kit_sound n) _ _,
      fun _ _ => Vm.safe_runFunction (kit_sound n) _ _, fun _ => Vm.safe_nextValue (kit_sound n) _,
      fun _ _ _ _ _ hfn hc hd => Vm.callValue_direct (kit n) hfn hc hd⟩

end StackVm
