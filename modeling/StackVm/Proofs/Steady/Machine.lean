import StackVm.Proofs.Engine.Store
import StackVm.Interp.Run

/-! Computations that give back what the engine counts across activations: the number of
activations in progress and the exception the innermost caller is handling.  A computation may
change both on its way, but every run of it ends, finished or failed, with both as they were.

`EStateM.Keeps R x` says that every run of `x` ends in a state `R`-related to the one it started
in; the rules here build it from the parts of a computation.  For machine computations the
relation is `Machine.Steady`, and this module proves it of the computations on the store: the
primitives, the exception links and the operators. -/

namespace EStateM

variable {ε σ α β γ : Type} {R : σ → σ → Prop}

section Run

variable {x : EStateM ε σ α} {s s' : σ}

theorem run_bind_of_ok {f : α → EStateM ε σ β} {a : α} (h : x s = .ok a s') :
    (x >>= f) s = f a s' := by
  show EStateM.bind x f s = _
  simp only [EStateM.bind, h]

theorem run_bind_of_error {f : α → EStateM ε σ β} {e : ε} (h : x s = .error e s') :
    (x >>= f) s = .error e s' := by
  show EStateM.bind x f s = _
  simp only [EStateM.bind, h]

theorem run_tryCatch_of_ok {h : ε → EStateM ε σ α} {a : α} (hx : x s = .ok a s') :
    tryCatch x h s = .ok a s' := by
  show EStateM.tryCatch x h s = _
  simp only [EStateM.tryCatch, hx]

theorem run_tryCatch_of_error {h : ε → EStateM ε σ α} {e : ε} (hx : x s = .error e s') :
    tryCatch x h s = h e s' := by
  show EStateM.tryCatch x h s = _
  simp only [EStateM.tryCatch, hx]
  rfl

end Run

/-- Every run of `x` ends, finished or failed, in a state `R`-related to its start. -/
def Keeps (R : σ → σ → Prop) (x : EStateM ε σ α) : Prop := ∀ s, R s (x s).state

namespace Keeps

variable {x : EStateM ε σ α} {f : α → EStateM ε σ β}

theorem pure [Std.Refl R] (a : α) : Keeps R (Pure.pure a : EStateM ε σ α) :=
  fun s => refl_of R s

theorem throw [Std.Refl R] (e : ε) : Keeps R (MonadExcept.throw e : EStateM ε σ α) :=
  fun s => refl_of R s

theorem bind [IsTrans σ R] (hx : Keeps R x) (hf : ∀ a, Keeps R (f a)) : Keeps R (x >>= f) := by
  intro s
  have h := hx s
  cases hxs : x s with
  | ok a s₁ =>
    rw [hxs] at h
    rw [run_bind_of_ok hxs]
    exact trans_of R h (hf a s₁)
  | error e s₁ =>
    rw [hxs] at h
    rwa [run_bind_of_error hxs]

theorem map [Std.Refl R] [IsTrans σ R] (hx : Keeps R x) (g : α → β) : Keeps R (g <$> x) :=
  hx.bind fun a => pure (g a)

theorem tryCatch [IsTrans σ R] {h : ε → EStateM ε σ α} (hx : Keeps R x)
    (hh : ∀ e, Keeps R (h e)) : Keeps R (tryCatch x h) := by
  intro s
  have hs := hx s
  cases hxs : x s with
  | ok a s₁ =>
    rw [hxs] at hs
    rwa [run_tryCatch_of_ok hxs]
  | error e s₁ =>
    rw [hxs] at hs
    rw [run_tryCatch_of_error hxs]
    exact trans_of R hs (hh e s₁)

theorem ite {c : Prop} [Decidable c] {y : EStateM ε σ α} (hx : c → Keeps R x)
    (hy : ¬ c → Keeps R y) : Keeps R (if c then x else y) := by
  split
  · exact hx ‹_›
  · exact hy ‹_›

theorem get_bind {g : σ → EStateM ε σ β} (hg : ∀ s, Keeps R (g s)) :
    Keeps R (get >>= g) :=
  fun s => hg s s

theorem modify [Std.Refl R] {g : σ → σ} (hg : ∀ s, R s (g s)) :
    Keeps R (modify g : EStateM ε σ PUnit) :=
  hg

theorem modifyGet {g : σ → α × σ} (hg : ∀ s, R s (g s).2) :
    Keeps R (modifyGet g : EStateM ε σ α) :=
  hg

theorem forIn_list [Std.Refl R] [IsTrans σ R] {g : γ → β → EStateM ε σ (ForInStep β)}
    (hg : ∀ c b, Keeps R (g c b)) : ∀ (xs : List γ) (b : β), Keeps R (forIn xs b g)
  | [], b => by
    rw [List.forIn_nil]
    exact pure b
  | c :: xs, b => by
    rw [List.forIn_cons]
    refine (hg c b).bind fun r => ?_
    cases r with
    | done b' => exact pure b'
    | yield b' => exact forIn_list hg xs b'

theorem forIn_array [Std.Refl R] [IsTrans σ R] {g : γ → β → EStateM ε σ (ForInStep β)}
    (hg : ∀ c b, Keeps R (g c b)) (xs : Array γ) (b : β) : Keeps R (forIn xs b g) := by
  rw [← Array.forIn_toList]
  exact forIn_list hg xs.toList b

theorem mapM_list [Std.Refl R] [IsTrans σ R] {g : γ → EStateM ε σ β} (hg : ∀ c, Keeps R (g c)) :
    ∀ xs : List γ, Keeps R (xs.mapM g)
  | [] => pure _
  | c :: xs => by
    rw [List.mapM_cons]
    exact (hg c).bind fun _ => (mapM_list hg xs).bind fun _ => pure _

theorem mapM_array [Std.Refl R] [IsTrans σ R] {g : γ → EStateM ε σ β} (hg : ∀ c, Keeps R (g c))
    (xs : Array γ) : Keeps R (xs.mapM g) := by
  rw [Array.mapM_eq_mapM_toList]
  exact (mapM_list hg xs.toList).map _

theorem foldlM_list [Std.Refl R] [IsTrans σ R] {g : β → γ → EStateM ε σ β}
    (hg : ∀ b c, Keeps R (g b c)) : ∀ (xs : List γ) (b : β), Keeps R (xs.foldlM g b)
  | [], _ => pure _
  | c :: xs, b => by
    rw [List.foldlM_cons]
    exact (hg b c).bind fun b' => foldlM_list hg xs b'

theorem foldlM_array [Std.Refl R] [IsTrans σ R] {g : β → γ → EStateM ε σ β}
    (hg : ∀ b c, Keeps R (g b c)) (xs : Array γ) (b : β) : Keeps R (xs.foldlM g b) := by
  rw [← Array.foldlM_toList]
  exact foldlM_list hg xs.toList b

end Keeps

end EStateM

namespace StackVm

/-- Two machines with the same number of activations in progress and the same exception
context. -/
structure Machine.Steady (m m' : Machine) : Prop where
  depth : m'.depth = m.depth
  context : m'.context = m.context

instance : Std.Refl Machine.Steady := ⟨fun _ => ⟨rfl, rfl⟩⟩

instance : IsTrans Machine Machine.Steady :=
  ⟨fun _ _ _ h₁ h₂ => ⟨h₂.depth.trans h₁.depth, h₂.context.trans h₁.context⟩⟩

theorem Machine.steady_of_with (m : Machine) (h : Heap) (st : Stats) (ps : Array Profile) :
    m.Steady { m with heap := h, stats := st, profiles := ps } := ⟨rfl, rfl⟩

namespace Vm

open EStateM (Keeps)

variable {α β : Type}

/-- A machine computation that gives back the depth count and the exception context. -/
abbrev Steady (x : Vm α) : Prop := Keeps Machine.Steady x

theorem steady_alloc (o : Obj) : Steady (alloc o) :=
  Keeps.modifyGet fun m => m.steady_of_with _ m.stats m.profiles

theorem steady_obj (a : Addr) : Steady (obj a) := by
  refine Keeps.get_bind fun m => ?_
  split
  · exact Keeps.pure _
  · exact Keeps.throw _

theorem steady_modifyObj (a : Addr) (g : Obj → Obj) : Steady (modifyObj a g) :=
  Keeps.modify fun m => m.steady_of_with _ m.stats m.profiles

theorem steady_count (g : Stats → Stats) : Steady (count g) :=
  Keeps.modify fun m => m.steady_of_with m.heap _ m.profiles

theorem steady_newExc (e : Exc) : Steady (newExc e) := steady_alloc _

theorem steady_raise (r : Raise) : Steady (raise r : Vm α) :=
  (steady_newExc _).bind fun _ => Keeps.throw _

theorem steady_raiseMsg (t : ExcType) (msg : String) : Steady (raiseMsg t msg : Vm α) :=
  steady_raise _

theorem steady_ofExcept (x : Except Raise α) : Steady (ofExcept x) := by
  cases x with
  | error r => exact steady_raise r
  | ok a => exact Keeps.pure a

theorem steady_internal (msg : String) : Steady (internal msg : Vm α) := Keeps.throw _

theorem steady_int (i : Int) : Steady (int i) :=
  Keeps.ite (fun _ => Keeps.pure _) fun _ => (steady_alloc _).bind fun _ => Keeps.pure _

theorem steady_num (r : Num) : Steady (num r) := by
  cases r with
  | int i => exact steady_int i
  | float f => exact Keeps.pure _

theorem steady_str (s : String) : Steady (str s) := (steady_alloc _).bind fun _ => Keeps.pure _

theorem steady_tuple (xs : Array Value) : Steady (tuple xs) :=
  (steady_alloc _).bind fun _ => Keeps.pure _

theorem steady_list (xs : Array Value) : Steady (list xs) :=
  (steady_alloc _).bind fun _ => Keeps.pure _

theorem steady_exc (a : Addr) : Steady (exc a) := by
  refine (steady_obj a).bind fun o => ?_
  split
  · exact Keeps.pure _
  · exact steady_internal _

theorem steady_modifyExc (a : Addr) (g : Exc → Exc) : Steady (modifyExc a g) :=
  steady_modifyObj _ _

/-! ### Exception links -/

theorem steady_chainContext (this : Addr) (handled : Option Addr) :
    Steady (chainContext this handled) := by
  unfold chainContext
  split
  · exact Keeps.pure _
  · exact Keeps.get_bind fun _ => Keeps.ite (fun _ => Keeps.pure _) fun _ => steady_modifyExc _ _

theorem steady_setCause (this : Addr) (cause : Option Addr) : Steady (setCause this cause) :=
  Keeps.get_bind fun _ => steady_modifyExc _ _

theorem steady_excOfValue (v : Value) : Steady (excOfValue v) := by
  refine Keeps.get_bind fun m => ?_
  dsimp only
  split
  · exact Keeps.pure _
  · exact steady_newExc _
  · exact steady_raiseMsg _ _

theorem steady_excWithPayload (t : ExcType) (payload : Value) :
    Steady (excWithPayload t payload) :=
  Keeps.get_bind fun _ => steady_newExc _

theorem steady_instantiate (t : ExcType) (args : Array Value) : Steady (instantiate t args) := by
  refine Keeps.get_bind fun m => ?_
  dsimp only
  split
  · exact steady_newExc _
  · refine Keeps.ite (fun _ => steady_excWithPayload _ _) fun _ => ?_
    split
    · exact steady_newExc _
    · exact steady_newExc _
  · exact steady_newExc _

/-! ### Functions and frames -/

theorem steady_codeObj (a : Addr) : Steady (codeObj a) := by
  refine (steady_obj a).bind fun o => ?_
  split
  · exact Keeps.pure _
  · exact steady_internal _

theorem steady_function (a : Addr) : Steady (function a) := by
  refine (steady_obj a).bind fun o => ?_
  split
  · exact Keeps.pure _
  · exact steady_internal _

theorem steady_newFunction (code globals : Addr) (defaults : Array Value) (closure : Array Addr) :
    Steady (newFunction code globals defaults closure) := by
  refine (steady_codeObj code).bind fun c => ?_
  dsimp only
  refine Keeps.ite (fun _ => (Keeps.throw _).bind fun _ => ?_) fun _ => ?_ <;>
    exact Keeps.ite (fun _ => (steady_raiseMsg _ _).bind fun _ => steady_alloc _)
      fun _ => steady_alloc _

theorem steady_raise_bind (r : Raise) (f : α → Vm β) : Steady (raise r >>= f) :=
  fun m => steady_raise (α := α) r m

theorem steady_bind (fn : Function) (args : Array Value) : Steady (bind fn args) := by
  refine (steady_codeObj _).bind fun c => ?_
  dsimp only
  repeat' first
    | exact Keeps.pure _
    | exact steady_raise_bind _ _
    | exact steady_raiseMsg _ _
    | exact steady_tuple _
    | refine Keeps.ite (fun _ => ?_) fun _ => ?_

theorem steady_newFrame (fnAddr : Addr) (args : Array Value) : Steady (newFrame fnAddr args) := by
  refine (steady_function _).bind fun fn => (steady_codeObj _).bind fun c => ?_
  dsimp only
  refine Keeps.ite (fun _ => (steady_internal _).bind fun _ => ?_) fun _ => ?_ <;>
  · refine (Keeps.forIn_array (fun _ _ => (steady_alloc _).bind fun _ => Keeps.pure _) _ _).bind
      fun cells => ?_
    refine (Keeps.forIn_array (fun _ _ => ?_) _ _).bind fun _ => Keeps.pure _
    split
    · exact (steady_modifyObj _ _).bind fun _ => Keeps.pure _
    · exact Keeps.pure _

end Vm

namespace Ops

open EStateM (Keeps)
open Vm

theorem steady_getItem (obj key : Value) : Steady (getItem obj key) := by
  refine Keeps.get_bind fun m => ?_
  dsimp only
  split
  case h_1 | h_2 | h_4 => exact (steady_ofExcept _).bind fun _ => Keeps.pure _
  case h_3 => exact (steady_ofExcept _).bind fun _ => steady_str _
  case h_5 =>
    refine (steady_ofExcept _).bind fun _ => ?_
    split
    · exact Keeps.pure _
    · exact steady_raiseMsg _ _
  case h_6 => exact steady_raiseMsg _ _

theorem steady_setItem (obj key value : Value) : Steady (setItem obj key value) := by
  refine Keeps.get_bind fun m => ?_
  dsimp only
  split
  case h_1 | h_2 => exact (steady_ofExcept _).bind fun _ => steady_modifyObj _ _
  case h_3 => exact steady_raiseMsg _ _

theorem steady_delItem (obj key : Value) : Steady (delItem obj key) := by
  refine Keeps.get_bind fun m => ?_
  dsimp only
  split
  case h_1 => exact (steady_ofExcept _).bind fun _ => steady_modifyObj _ _
  case h_2 =>
    refine (steady_ofExcept _).bind fun _ => ?_
    split
    · exact steady_modifyObj _ _
    · exact steady_raiseMsg _ _
  case h_3 => exact steady_raiseMsg _ _

theorem steady_bound (n : Native) : Steady (bound n) :=
  (steady_alloc _).bind fun _ => Keeps.pure _

theorem steady_getAttr (obj : Value) (name : String) : Steady (getAttr obj name) := by
  refine Keeps.get_bind fun m => ?_
  dsimp only
  split
  case h_1 | h_2 =>
    split
    · exact Keeps.pure _
    · exact steady_raise _
  case h_3 =>
    split
    · exact Keeps.ite (fun _ => Keeps.pure _) fun _ => steady_raise _
    · split
      · exact Keeps.ite (fun _ => (steady_str _).bind fun _ => steady_tuple _)
          fun _ => steady_tuple _
      · exact steady_tuple _
    all_goals first | exact Keeps.pure _ | exact steady_raise _
  case h_4 | h_5 | h_6 =>
    split
    all_goals first | exact steady_bound _ | exact steady_raise _
  case h_7 => exact steady_raise _

theorem steady_setAttr (obj : Value) (name : String) (value : Value) :
    Steady (setAttr obj name value) := by
  refine Keeps.get_bind fun m => ?_
  dsimp only
  split
  case h_1 =>
    split
    · exact Keeps.ite (fun _ => steady_modifyObj _ _) fun _ => steady_raise _
    · exact steady_raise _
  case h_2 => exact steady_modifyObj _ _
  case h_3 => exact steady_raiseMsg _ _

theorem steady_delAttr (obj : Value) (name : String) : Steady (delAttr obj name) := by
  refine Keeps.get_bind fun m => ?_
  dsimp only
  split
  case h_1 =>
    split
    · exact steady_modifyObj _ _
    · exact steady_raiseMsg _ _
  case h_2 => exact steady_raise _

theorem steady_getIter (v : Value) : Steady (getIter v) := by
  refine Keeps.get_bind fun m => ?_
  dsimp only
  split
  case h_1 => exact Keeps.pure _
  case h_2 => exact Keeps.ite (fun _ => Keeps.pure _) fun _ => steady_raise _
  case h_9 => exact steady_raise _
  all_goals exact (steady_alloc _).bind fun _ => Keeps.pure _

theorem steady_iterNext (a : Addr) (it : Iter) : Steady (iterNext a it) := by
  have tail : ∀ item : Option Value, Steady (if item.isSome = true then do
      modifyObj a (Obj.mapIter fun it => { it with index := it.index + 1 })
      pure item
    else pure item) := fun item =>
    Keeps.ite (fun _ => (steady_modifyObj _ _).bind fun _ => Keeps.pure _) fun _ => Keeps.pure _
  refine Keeps.get_bind fun m => ?_
  dsimp only
  split
  case h_1 | h_2 | h_4 => exact (Keeps.pure _).bind tail
  case h_3 =>
    split
    · exact ((steady_str _).map _).bind tail
    · exact (Keeps.pure _).bind tail
  case h_5 =>
    exact Keeps.ite (fun _ => ((steady_int _).map _).bind tail) fun _ => (Keeps.pure _).bind tail
  case h_6 | h_7 =>
    split
    · exact Keeps.ite (fun _ => (steady_raiseMsg _ _).bind tail) fun _ => (Keeps.pure _).bind tail
    · exact (Keeps.pure _).bind tail

theorem steady_repeatSeq (seq count : Value) : Steady (repeatSeq seq count) := by
  refine Keeps.get_bind fun m => ?_
  dsimp only
  split
  · refine Keeps.ite (fun _ => (Keeps.pure _).bind fun n => ?_) fun _ => steady_raise_bind _ _
    split
    case h_1 =>
      exact Keeps.ite (fun _ => steady_str _) fun _ => Keeps.ite (fun _ => Keeps.throw _)
        fun _ => steady_str _
    case h_2 =>
      exact Keeps.ite (fun _ => Keeps.throw _) fun _ => (steady_alloc _).bind fun _ => Keeps.pure _
    case h_3 => exact steady_tuple _
    case h_4 => exact steady_list _
    case h_5 => exact steady_raise _
  · exact steady_raise_bind _ _

theorem steady_sequenceBinary (op : BinaryOp) (x y : Value) : Steady (sequenceBinary op x y) := by
  refine Keeps.get_bind fun m => ?_
  dsimp only
  split
  case h_1 => exact (steady_str _).map _
  case h_2 => exact (steady_alloc _).bind fun _ => Keeps.pure _
  case h_3 => exact (steady_tuple _).map _
  case h_4 => exact (steady_list _).map _
  case h_5 =>
    exact Keeps.ite (fun _ => (steady_repeatSeq _ _).map _)
      fun _ => Keeps.ite (fun _ => (steady_repeatSeq _ _).map _) fun _ => Keeps.pure _
  case h_6 => exact Keeps.pure _

theorem steady_binary (op : BinaryOp) (x y : Value) : Steady (binary op x y) := by
  refine Keeps.get_bind fun m => ?_
  dsimp only
  split
  · exact (steady_ofExcept _).bind fun _ => steady_num _
  · split
    · refine (steady_ofExcept _).bind fun _ => (steady_ofExcept _).bind fun _ => ?_
      split
      · exact (steady_ofExcept _).bind fun _ => Keeps.pure _
      · exact steady_raise _
    · refine (steady_sequenceBinary op x y).bind fun r => ?_
      split
      · exact Keeps.pure _
      · exact steady_raise _

theorem steady_unary (op : UnaryOp) (x : Value) : Steady (unary op x) := by
  refine Keeps.get_bind fun m => ?_
  dsimp only
  split
  case h_1 | h_2 | h_3 => exact Keeps.pure _
  case h_4 =>
    split
    case h_4 => exact steady_raise _
    all_goals exact steady_int _

end Ops

namespace Vm

open EStateM (Keeps)

variable {α : Type}

/-! ### Iteration, imports and the helpers of calls -/

theorem steady_drain {next : Value → Vm (Option Value)} (hnext : ∀ v, Steady (next v))
    (it : Value) : ∀ (fuel : Nat) (acc : Array Value), Steady (drain next it fuel acc)
  | 0, _ => Keeps.throw _
  | fuel + 1, acc => by
    refine (hnext it).bind fun r => ?_
    cases r with
    | some v => exact steady_drain hnext it fuel (acc.push v)
    | none => exact Keeps.pure _

theorem steady_iterateWith {next : Value → Vm (Option Value)} (hnext : ∀ v, Steady (next v))
    (v : Value) : Steady (iterateWith next v) :=
  (Ops.steady_getIter v).bind fun it => steady_drain hnext it _ _

theorem steady_importModule (name : String) : Steady (importModule name) := by
  refine Keeps.get_bind fun m => ?_
  split
  · exact Keeps.pure _
  · exact steady_raiseMsg _ _

theorem steady_importFrom (module : Value) (name : String) : Steady (importFrom module name) := by
  refine (Ops.steady_getAttr module name).tryCatch fun err => ?_
  split
  · refine (steady_exc _).bind fun e => Keeps.ite (fun _ => ?_) fun _ => Keeps.throw _
    exact Keeps.get_bind fun _ => steady_raiseMsg _ _
  · exact Keeps.throw _

theorem steady_generator (g : Addr) : Steady (generator g) := by
  refine (steady_obj g).bind fun o => ?_
  split
  · exact Keeps.pure _
  · exact steady_internal _

theorem steady_modifyGenerator (g : Addr) (f : Generator → Generator) :
    Steady (modifyGenerator g f) :=
  steady_modifyObj _ _

theorem steady_raiseKind (t : ExcType) (msg : String) (kind : ErrorKind) :
    Steady (raiseKind t msg kind : Vm α) :=
  (steady_newExc _).bind fun _ => Keeps.throw _

theorem steady_exhaustedSignal (kind : GeneratorKind) : Steady (exhaustedSignal kind : Vm α) := by
  cases kind with
  | generator => exact steady_raise _
  | coroutine => exact steady_raiseMsg _ _
  | asyncGenerator => exact steady_raise _

theorem steady_completionSignal (kind : GeneratorKind) (v : Value) :
    Steady (completionSignal kind v : Vm α) := by
  unfold completionSignal
  split
  · exact steady_raise _
  · exact (steady_excWithPayload _ _).bind fun _ => Keeps.throw _

theorem steady_throwUnstarted (g fnAddr exc : Addr) : Steady (throwUnstarted g fnAddr exc : Vm α) :=
  (steady_function _).bind fun _ => (steady_codeObj _).bind fun _ =>
    (steady_modifyExc _ _).bind fun _ => (steady_modifyGenerator _ _).bind fun _ => Keeps.throw _

theorem steady_wrapEscaping (kind : GeneratorKind) (err : Fault) :
    Steady (wrapEscaping kind err) := by
  unfold wrapEscaping
  split
  · refine (steady_exc _).bind fun e => ?_
    dsimp only
    split
    · exact (steady_newExc _).bind fun _ => (steady_setCause _ _).bind fun _ => Keeps.pure _
    · exact Keeps.pure _
  · exact Keeps.pure _

theorem steady_arity (name : String) (args : Array Value) (lo hi : Nat) :
    Steady (arity name args lo hi) :=
  Keeps.ite (fun _ => steady_raise _) fun _ => Keeps.pure _

theorem steady_exactArity (name : String) (args : Array Value) (n : Nat) :
    Steady (exactArity name args n) :=
  Keeps.ite (fun _ => steady_raiseMsg _ _) fun _ => Keeps.pure _

theorem steady_rangeBound (v : Value) : Steady (rangeBound v) := by
  refine Keeps.get_bind fun m => ?_
  dsimp only
  split
  case h_1 | h_2 => exact Keeps.pure _
  all_goals exact steady_raiseMsg _ _

theorem steady_listItems (a : Addr) : Steady (listItems a) := by
  refine (steady_obj a).bind fun o => ?_
  split
  · exact Keeps.pure _
  · exact steady_internal _

theorem steady_dictEntries (a : Addr) : Steady (dictEntries a) := by
  refine (steady_obj a).bind fun o => ?_
  split
  · exact Keeps.pure _
  · exact steady_internal _

end Vm

namespace Act

open EStateM (Keeps)

/-- An operator site's run keeps every relation that its reads, its writes of the site and its
counts keep: on every branch it only settles, counts and reopens the site. -/
theorem keeps_noteOperator {R : Active → Active → Prop} [Std.Refl R] [IsTrans Active R]
    (hcaching : Keeps R operatorCaching) (hsite : Keeps R site)
    (hset : ∀ st, Keeps R (setSite st)) (hcount : ∀ g, Keeps R (count g)) (kind : SiteCache)
    (hits : SiteCache → Bool) : Keeps R (noteOperator kind hits) := by
  have hguess : ∀ st, Keeps R (operatorGuess st hits) := fun st => by
    unfold operatorGuess
    refine Keeps.ite (fun _ => Keeps.pure _) fun _ => Keeps.ite (fun _ => ?_) fun _ => ?_
    · exact (hcount _).bind fun _ => Keeps.pure _
    · exact ((hset _).bind fun _ => hcount _).bind fun _ => Keeps.pure _
  unfold noteOperator
  refine hcaching.bind fun _ => ?_
  refine Keeps.ite (fun _ => Keeps.pure _) fun _ => ?_
  refine hsite.bind fun o => ?_
  split
  · exact Keeps.ite (fun _ => ((hset _).bind fun _ => hcount _).bind fun _ => hguess _)
      fun _ => hguess _
  · exact Keeps.pure _

end Act

end StackVm
