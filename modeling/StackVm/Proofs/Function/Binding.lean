import StackVm.Proofs.Activation.Search
import StackVm.Proofs.Loop.Region

/-! Binding call arguments and setting up an activation.  A function with `p` parameters, `d`
defaults (at most `p`) and maybe a slot for surplus arguments takes `n` positional arguments
unless there are more than `p` and no such slot, or fewer than the `p - d` parameters that have
no default; a refused count is a `TypeError`.  Otherwise the parameters get the leading
arguments, the parameters left get the trailing defaults, and the slot gets a new tuple of the
surplus (`Function.positional`).  The bound values fill exactly the parameter slots, which a
checked unit has room for, so a new activation takes them without fault.

A new activation gives each cell of its unit a fresh, empty cell, then walks the captured
parameters in order and stores each one's bound value in its cell.  Checking a unit does not
keep two entries from naming one cell: the later entry's value is the one the cell holds. -/

namespace StackVm

namespace Function

/-- The values a call gives its positional parameters: the leading arguments, as many as there
are parameters, then the defaults of the parameters left, which are the trailing defaults. -/
def positional (params : Nat) (defaults args : Array Value) : Array Value :=
  let given := min args.size params
  args.extract 0 given ++ defaults.extract (defaults.size - (params - given)) defaults.size

/-- A count of arguments that binding refuses: more than the parameters with no slot for the
surplus, or fewer than the parameters that have no default. -/
def Refused (params : Nat) (varargs : Bool) (defaults given : Nat) : Prop :=
  (params < given ∧ varargs = false) ∨ given < params - defaults

theorem size_positional {params : Nat} {defaults args : Array Value}
    (hd : defaults.size ≤ params) (hn : ¬ args.size < params - defaults.size) :
    (positional params defaults args).size = params := by
  simp only [positional, Array.size_append, Array.size_extract]
  omega

theorem positional_of_le {params : Nat} {defaults args : Array Value} (h : params ≤ args.size) :
    positional params defaults args = args.extract 0 params := by
  simp [positional, Nat.min_eq_right h]

end Function

namespace CodeUnit

variable {u : CodeUnit} {isCode : Value → Bool}

theorem forIn_guards {α ε : Type} (bad : α → Bool) (err : α → ε) :
    ∀ (xs : List α) (r : PUnit.{1}),
      forIn xs PUnit.unit (fun x (_ : PUnit.{1}) => if bad x = true then
        ((throw (err x) : Except ε PUnit.{1}) >>= fun _ => pure (ForInStep.yield PUnit.unit))
        else pure (ForInStep.yield PUnit.unit)) = .ok r →
      ∀ x ∈ xs, bad x = false
  | [], _, _ => by simp
  | y :: ys, r, h => by
    rw [List.forIn_cons] at h
    by_cases hy : bad y = true
    · simp [hy, throw, throwThe, MonadExceptOf.throw, bind, Except.bind] at h
    · simp only [hy, Bool.false_eq_true, if_false, pure, Except.pure, bind, Except.bind] at h
      intro x hx
      rcases List.mem_cons.1 hx with rfl | hx
      · simpa using hy
      · exact forIn_guards bad err ys r h x hx

/-- A checked unit has a local slot for every parameter, and each captured parameter names a
cell and a parameter of it. -/
theorem params_of_validate (hv : u.validate isCode = .ok ()) :
    u.paramCount ≤ u.localNames.size ∧
      ∀ x ∈ u.cellArgs, x.1 < u.cellNames.size ∧ x.2 < u.paramCount := by
  unfold validate at hv
  dsimp only at hv
  split at hv
  · simp [throw, throwThe, MonadExceptOf.throw, bind, Except.bind] at hv
  · next hp =>
    refine ⟨Nat.le_of_not_lt hp, fun x hx => ?_⟩
    cases hl : forIn u.cellArgs PUnit.unit (fun x _ =>
        if (decide (x.1 ≥ u.cellNames.size) || decide (x.2 ≥ u.paramCount)) = true then
          (throw (CodeError.badCellArg x.1 x.2) >>= fun _ => pure (ForInStep.yield PUnit.unit) :
            Except CodeError _)
        else pure (ForInStep.yield PUnit.unit)) with
    | error e =>
      rw [hl] at hv
      cases hv
    | ok r =>
      rw [← Array.forIn_toList] at hl
      have hin := forIn_guards _ _ _ r hl x (Array.mem_toList_iff.2 hx)
      simp only [Bool.or_eq_false_iff, decide_eq_false_iff_not, Nat.not_le] at hin
      exact hin

end CodeUnit

namespace Heap

/-- Stores the bound value of a captured parameter in its cell, when both are there. -/
def seedCell (cells : Array Addr) (locals : Array (Option Value)) (h : Heap) (x : Nat × Nat) :
    Heap :=
  match cells[x.1]?, locals[x.2]? with
  | some a, some (some v) => h.modify a (Obj.mapCell fun _ => some v)
  | _, _ => h

/-- With fresh cells at `s, s + 1, …`, the captured parameters stored in order leave in the
cell of index `i` the value of the last entry naming it, and nothing when none does. -/
theorem get?_foldl_seedCell {s k i : Nat} {locals : Array (Option Value)} {h : Heap}
    (hi : i < k) (hcell : h.get? (s + i) = some (.cell none)) :
    ∀ xs : List (Nat × Nat), (∀ x ∈ xs, x.1 < k ∧ ∃ v, locals[x.2]? = some (some v)) →
      (xs.foldl (seedCell (Array.range' s k) locals) h).get? (s + i) =
        some (.cell ((xs.reverse.find? (·.1 == i)).bind fun x => (locals[x.2]?).join)) := by
  intro xs
  induction xs using List.reverseRecOn with
  | nil => simpa using hcell
  | append_singleton xs e ih =>
    intro hxs
    have ih := ih fun x hx => hxs x (List.mem_append_left _ hx)
    obtain ⟨hek, v, hv⟩ := hxs e (by simp)
    have hseed : seedCell (Array.range' s k) locals (xs.foldl (seedCell (Array.range' s k) locals) h) e =
        (xs.foldl (seedCell (Array.range' s k) locals) h).modify (s + e.1)
          (Obj.mapCell fun _ => some v) := by
      simp [seedCell, hek, hv]
    rw [List.foldl_append, List.foldl_cons, List.foldl_nil, hseed, get?_modify_eq]
    by_cases hei : e.1 = i
    · subst hei
      simp [ih, Obj.mapCell, hv]
    · simp [ih, hei]

end Heap

namespace Vm

variable {m : Machine} {a : Addr}

theorem codeObj_of_get? {c : CodeObj} (h : m.heap.get? a = some (.code c)) :
    codeObj a m = .ok c m := by
  unfold codeObj
  rw [EStateM.run_bind_of_ok (obj_of_get? h)]
  rfl

theorem function_of_get? {f : Function} (h : m.heap.get? a = some (.function f)) :
    function a m = .ok f m := by
  unfold function
  rw [EStateM.run_bind_of_ok (obj_of_get? h)]
  rfl

theorem raiseMsg_run {α : Type} (t : ExcType) (msg : String) :
    (raiseMsg t msg : Vm α) m = .error (.raise m.heap.objs.size)
      { m with heap := (m.heap.alloc (.exception { type := t, message := some msg })).1 } :=
  rfl

theorem raiseMsg_bind_run {α β : Type} (t : ExcType) (msg : String) (f : α → Vm β) :
    (raiseMsg t msg >>= f) m = .error (.raise m.heap.objs.size)
      { m with heap := (m.heap.alloc (.exception { type := t, message := some msg })).1 } :=
  rfl

/-! ### Binding -/

section Binding

variable {fn : Function} {args : Array Value} {c : CodeObj}

theorem bind_refused (hc : m.heap.get? fn.code = some (.code c))
    (hr : Function.Refused c.unit.argCount c.unit.flags.hasVarargs fn.defaults.size args.size) :
    ∃ a x m', bind fn args m = .error (.raise a) m' ∧ m'.heap.get? a = some (.exception x) ∧
      x.type = .typeError := by
  unfold bind
  rw [EStateM.run_bind_of_ok (codeObj_of_get? hc)]
  dsimp only
  rcases hr with ⟨hmany, hv⟩ | hfew
  · rw [if_pos hmany, hv]
    exact ⟨_, _, _, raiseMsg_bind_run _ _ _, Heap.get?_alloc _ _, rfl⟩
  · by_cases hmany : c.unit.argCount < args.size
    · omega
    · have hlt : args.size < c.unit.argCount := by omega
      simp only [if_neg hmany, pure_bind, if_pos hlt, if_pos hfew]
      exact ⟨_, _, _, raiseMsg_bind_run _ _ _, Heap.get?_alloc _ _, rfl⟩

/-- A count that is not refused binds the positional values and, when the unit has a slot for
surplus arguments, a new tuple of them at the first free address. -/
theorem bind_accepted (hc : m.heap.get? fn.code = some (.code c))
    (hd : fn.defaults.size ≤ c.unit.argCount) (hr : ¬ Function.Refused c.unit.argCount c.unit.flags.hasVarargs fn.defaults.size args.size) :
    bind fn args m =
      if c.unit.flags.hasVarargs then
        .ok (Function.positional c.unit.argCount fn.defaults args |>.push (.ref m.heap.objs.size))
          { m with heap := (m.heap.alloc (.tuple (args.extract c.unit.argCount args.size))).1 }
      else .ok (Function.positional c.unit.argCount fn.defaults args) m := by
  simp only [Function.Refused, not_or, not_and, Bool.not_eq_false, Nat.not_lt] at hr
  obtain ⟨hmany, hfew⟩ := hr
  unfold bind
  rw [EStateM.run_bind_of_ok (codeObj_of_get? hc)]
  dsimp only
  by_cases hgt : c.unit.argCount < args.size
  · have hv := hmany hgt
    have hsize : (args.extract 0 c.unit.argCount).size = c.unit.argCount := by
      simp only [Array.size_extract]
      omega
    simp only [if_pos hgt, hv, Bool.not_true, Bool.false_eq_true, if_false, pure_bind, hsize,
      Nat.lt_irrefl, if_true, Function.positional_of_le (Nat.le_of_lt hgt)]
    rfl
  · have hle : args.size ≤ c.unit.argCount := Nat.le_of_not_lt hgt
    have hpos : Function.positional c.unit.argCount fn.defaults args =
        args ++ fn.defaults.extract (args.size - (c.unit.argCount - fn.defaults.size)) := by
      simp only [Function.positional, Nat.min_eq_left hle, Array.extract_size]
      congr 2
      omega
    simp only [if_neg hgt, pure_bind, Array.extract_empty_of_size_le_start hle]
    by_cases hlt : args.size < c.unit.argCount
    · simp only [if_pos hlt, if_neg (Nat.not_lt.2 hfew), hpos]
      cases c.unit.flags.hasVarargs <;> rfl
    · have heq : args.size = c.unit.argCount := by omega
      have hpos' : Function.positional c.unit.argCount fn.defaults args = args := by
        rw [Function.positional_of_le (Nat.le_of_eq heq.symm), ← heq, Array.extract_size]
      simp only [if_neg hlt, hpos']
      cases c.unit.flags.hasVarargs <;> rfl

end Binding

/-! ### Setting up an activation -/

section Frame

variable {α : Type} {fnAddr : Addr} {fn : Function} {c : CodeObj} {args : Array Value}

/-- The first loop of a new activation places one empty cell for each name, at the free
addresses in order. -/
theorem forIn_freshCells (xs : List α) (cells : Array Addr) (m : Machine) :
    (forIn xs cells (fun _ r => do
        let a ← alloc (.cell none)
        pure (ForInStep.yield (r.push a))) : Vm (Array Addr)) m =
      .ok (cells ++ Array.range' m.heap.objs.size xs.length)
        { m with heap := ⟨m.heap.objs ++ Array.replicate xs.length (.cell none)⟩ } := by
  induction xs generalizing cells m with
  | nil => simp only [List.forIn_nil, List.length_nil]; rfl
  | cons x xs ih =>
    have hstep : (do
        let a ← alloc (.cell none)
        pure (ForInStep.yield (cells.push a)) : Vm (ForInStep (Array Addr))) m =
        .ok (.yield (cells.push m.heap.objs.size)) { m with heap := (m.heap.alloc (.cell none)).1 } :=
      rfl
    rw [List.forIn_cons, EStateM.run_bind_of_ok hstep]
    refine (ih _ _).trans ?_
    have hcells : cells.push m.heap.objs.size ++ Array.range' (m.heap.objs.size + 1) xs.length =
        cells ++ Array.range' m.heap.objs.size (xs.length + 1) := by
      apply Array.toList_inj.1
      simp [List.range'_succ]
    simp [Heap.alloc, hcells, Array.replicate_succ']

/-- The second loop of a new activation stores each captured parameter in its cell: its body
runs as `Heap.seedCell`, turn by turn. -/
theorem forIn_seedCells (cells : Array Addr) (locals : Array (Option Value))
    {f : Nat × Nat → PUnit → Vm (ForInStep PUnit)}
    (hf : ∀ x m, f x PUnit.unit m =
      .ok (.yield PUnit.unit) { m with heap := Heap.seedCell cells locals m.heap x }) :
    ∀ (xs : List (Nat × Nat)) (m : Machine),
      forIn xs PUnit.unit f m =
        .ok PUnit.unit { m with heap := xs.foldl (Heap.seedCell cells locals) m.heap }
  | [], _ => rfl
  | x :: xs, m => by
    rw [List.forIn_cons, EStateM.run_bind_of_ok (hf x m)]
    exact forIn_seedCells cells locals hf xs _

/-- A new activation on arguments that fit its local slots: the arguments in the first slots,
fresh cells for the unit's cells at the free addresses, holding what the captured parameters
store, then the function's closure. -/
theorem newFrame_run (hf : m.heap.get? fnAddr = some (.function fn))
    (hc : m.heap.get? fn.code = some (.code c)) (hs : args.size ≤ c.unit.localNames.size) :
    newFrame fnAddr args m =
      let locals := args.map some ++ Array.replicate (c.unit.localNames.size - args.size) none
      let cells := Array.range' m.heap.objs.size c.unit.cellNames.size
      .ok { code := c, codeRef := fn.code, globals := fn.globals, locals,
            derefs := cells ++ fn.closure }
        { m with
          heap := c.unit.cellArgs.toList.foldl (Heap.seedCell cells locals)
            (Heap.mk (m.heap.objs ++ Array.replicate c.unit.cellNames.size (.cell none))) } := by
  unfold newFrame
  rw [EStateM.run_bind_of_ok (function_of_get? hf)]
  dsimp only
  rw [EStateM.run_bind_of_ok (codeObj_of_get? hc)]
  rw [if_neg (Nat.not_lt.2 hs)]
  rw [← Array.forIn_toList, EStateM.run_bind_of_ok (forIn_freshCells _ _ _)]
  rw [← Array.forIn_toList, EStateM.run_bind_of_ok (forIn_seedCells _ _ (fun x m' => ?_) _ _)]
  · simp only [Array.empty_append, Array.length_toList]
    rfl
  · rw [Array.empty_append, Array.length_toList]
    unfold Heap.seedCell
    rcases (Array.range' m.heap.objs.size c.unit.cellNames.size)[x.1]? with _ | a <;>
      rcases (args.map some ++ Array.replicate (c.unit.localNames.size - args.size) none)[x.2]? with
        _ | _ | v <;> rfl

end Frame

/-! ### Binding, then entering -/

theorem join_locals (xs : Array Value) (r j : Nat) :
    ((xs.map some ++ Array.replicate r none)[j]?).join = xs[j]? := by
  rw [Array.getElem?_append]
  split
  · simp_all
  · next hj =>
    rw [Array.size_map] at hj
    rw [Array.getElem?_replicate]
    split <;> simp [Array.getElem?_eq_none (Nat.le_of_not_lt hj)]

/-- A new activation on bound values that fit its local slots is set up without fault, and the
cell of index `i` holds the value of the parameter of the last captured-parameter entry naming
it, and nothing when none does. -/
theorem newFrame_seeds {isCode : Value → Bool} {fnAddr : Addr} {fn : Function} {c : CodeObj}
    {bound : Array Value} (hf : m.heap.get? fnAddr = some (.function fn))
    (hc : m.heap.get? fn.code = some (.code c)) (hv : c.unit.validate isCode = .ok ())
    (hb : bound.size = c.unit.paramCount) :
    ∃ fr m', newFrame fnAddr bound m = .ok fr m' ∧
      ∀ i < c.unit.cellNames.size, ∃ cell, fr.derefs[i]? = some cell ∧
        m'.heap.get? cell = some (.cell
          ((c.unit.cellArgs.toList.reverse.find? (·.1 == i)).bind fun x => bound[x.2]?)) := by
  obtain ⟨hparams, hargs⟩ := CodeUnit.params_of_validate hv
  refine ⟨_, _, newFrame_run hf hc (hb ▸ hparams), fun i hi => ⟨m.heap.objs.size + i, ?_, ?_⟩⟩
  · simp [Array.getElem?_append_left (show i < (Array.range' m.heap.objs.size
      c.unit.cellNames.size).size by simpa using hi), hi]
  · have hentries : ∀ x ∈ c.unit.cellArgs.toList, x.1 < c.unit.cellNames.size ∧
        ∃ v, (bound.map some ++ Array.replicate (c.unit.localNames.size - bound.size) none)[x.2]? =
          some (some v) := by
      intro x hx
      obtain ⟨hcell, hparam⟩ := hargs x (Array.mem_toList_iff.1 hx)
      have hlt : x.2 < bound.size := by omega
      refine ⟨hcell, bound[x.2], ?_⟩
      rw [Array.getElem?_append_left (by simp; omega)]
      simp [hb ▸ hparam]
    have hfresh : (Heap.mk (m.heap.objs ++ Array.replicate c.unit.cellNames.size (.cell none))).get?
        (m.heap.objs.size + i) = some (.cell none) := by
      simp [Heap.get?, hi]
    rw [Heap.get?_foldl_seedCell hi hfresh _ hentries]
    simp only [join_locals]

end Vm

/-- Binding and entering a function.  A count of arguments is refused, with a `TypeError`,
exactly when `Function.Refused` says so.  Any other count binds the positional values, then a
new tuple of the surplus when the unit has a slot for it: one value per parameter slot, which a
checked unit has room for, and the arguments themselves when they match the parameters
exactly.  A new activation on the bound values is set up without fault, and each of its cells
holds the value of the parameter of the last captured-parameter entry naming it. -/
theorem binding_fills_parameters (isCode : Value → Bool) (fn : Function) (args : Array Value)
    (m : Machine) {c : CodeObj} (hc : m.heap.get? fn.code = some (.code c))
    (hd : fn.defaults.size ≤ c.unit.argCount) (hv : c.unit.validate isCode = .ok ()) :
    ((∃ e m', Vm.bind fn args m = .error e m') ↔
      Function.Refused c.unit.argCount c.unit.flags.hasVarargs fn.defaults.size args.size) ∧
    (∀ e m', Vm.bind fn args m = .error e m' →
      ∃ a x, e = .raise a ∧ m'.heap.get? a = some (.exception x) ∧ x.type = .typeError) ∧
    (¬ Function.Refused c.unit.argCount c.unit.flags.hasVarargs fn.defaults.size args.size →
      ∃ bound m', Vm.bind fn args m = .ok bound m' ∧
        bound = Function.positional c.unit.argCount fn.defaults args ++
          (if c.unit.flags.hasVarargs then #[.ref m.heap.objs.size] else #[]) ∧
        (c.unit.flags.hasVarargs = true → m'.heap.get? m.heap.objs.size =
          some (.tuple (args.extract c.unit.argCount args.size))) ∧
        bound.size = c.unit.paramCount ∧ bound.size ≤ c.unit.localNames.size ∧
        (c.unit.flags.hasVarargs = false → args.size = c.unit.argCount → bound = args) ∧
        ∀ fnAddr m₁, m₁.heap.get? fnAddr = some (.function fn) →
          m₁.heap.get? fn.code = some (.code c) →
          ∃ fr m₂, Vm.newFrame fnAddr bound m₁ = .ok fr m₂ ∧
            ∀ i < c.unit.cellNames.size, ∃ cell, fr.derefs[i]? = some cell ∧
              m₂.heap.get? cell = some (.cell
                ((c.unit.cellArgs.toList.reverse.find? (·.1 == i)).bind fun x => bound[x.2]?))) := by
  refine ⟨⟨fun ⟨e, m', h⟩ => ?_, fun hr => ?_⟩, fun e m' h => ?_, fun hr => ?_⟩
  · by_contra hr
    rw [Vm.bind_accepted hc hd hr] at h
    split at h <;> cases h
  · obtain ⟨a, x, m', h, -⟩ := Vm.bind_refused hc hr
    exact ⟨_, _, h⟩
  · by_cases hr : Function.Refused c.unit.argCount c.unit.flags.hasVarargs fn.defaults.size
        args.size
    · obtain ⟨a, x, m'', h', hx, ht⟩ := Vm.bind_refused hc hr
      rw [h'] at h
      cases h
      exact ⟨a, x, rfl, hx, ht⟩
    · rw [Vm.bind_accepted hc hd hr] at h
      split at h <;> cases h
  · have hpos : (Function.positional c.unit.argCount fn.defaults args).size = c.unit.argCount :=
      Function.size_positional hd fun h => hr (.inr h)
    have hparams := (CodeUnit.params_of_validate hv).1
    have hexact : c.unit.flags.hasVarargs = false → args.size = c.unit.argCount →
        Function.positional c.unit.argCount fn.defaults args = args := by
      intro _ hn
      rw [Function.positional_of_le (Nat.le_of_eq hn.symm), ← hn, Array.extract_size]
    have hbind := Vm.bind_accepted hc hd hr
    unfold CodeUnit.paramCount at hparams ⊢
    cases hvar : c.unit.flags.hasVarargs with
    | false =>
      rw [hvar] at hbind hparams
      have hsize : (Function.positional c.unit.argCount fn.defaults args).size =
          c.unit.argCount + 0 := hpos
      refine ⟨_, _, hbind, by simp, nofun, by simpa using hsize, by simpa [hpos] using hparams,
        fun _ hn => by simpa using hexact hvar hn, fun fnAddr m₁ hf hc₁ => Vm.newFrame_seeds hf hc₁ hv
          (by simp [CodeUnit.paramCount, hvar, hpos])⟩
    | true =>
      rw [hvar] at hbind hparams
      refine ⟨_, _, hbind, by simp, fun _ => Heap.get?_alloc _ _, by simp [hpos],
        by simpa [hpos] using hparams, nofun, fun fnAddr m₁ hf hc₁ => Vm.newFrame_seeds hf hc₁ hv
          (by simp [CodeUnit.paramCount, hvar, hpos])⟩

/-- `f(a, b)` whose body only returns, with one cell and the captured parameters given. -/
def pairUnit (cellArgs : Array (Nat × Nat)) : CodeUnit :=
  { (default : CodeUnit) with
    name := "f", bytecode := ⟨#[93]⟩, localNames := #["a", "b"], argCount := 2,
    cellNames := #["a"], cellArgs }

/-- `pairUnit` alone in the store, with a function of it at address `1` that has the defaults
given. -/
def pairMachine (defaults : Array Value) (cellArgs : Array (Nat × Nat)) : Machine :=
  { heap := { objs := #[.code { (default : CodeObj) with unit := pairUnit cellArgs },
      .function { code := 0, globals := 0, defaults, closure := #[] }] } }

/-- `f(a, b=2)` called on `1`: the default fills `b`, and the cell of a new activation, which
captures `a`, holds `1`. -/
theorem default_fills_trailing_parameter :
    ∃ bound m', Vm.bind { code := 0, globals := 0, defaults := #[.int 2], closure := #[] }
        #[.int 1] (pairMachine #[.int 2] #[(0, 0)]) = .ok bound m' ∧ bound = #[.int 1, .int 2] ∧
      ∃ fr m₂ cell, Vm.newFrame 1 bound (pairMachine #[.int 2] #[(0, 0)]) = .ok fr m₂ ∧
        fr.derefs[0]? = some cell ∧ m₂.heap.get? cell = some (.cell (some (.int 1))) := by
  obtain ⟨-, -, haccept⟩ := binding_fills_parameters (fun _ => false)
    { code := 0, globals := 0, defaults := #[.int 2], closure := #[] } #[.int 1]
    (pairMachine #[.int 2] #[(0, 0)]) rfl (by decide) rfl
  obtain ⟨bound, m', hbind, hbound, -, -, -, -, hframe⟩ := haccept (by simp [Function.Refused, pairUnit])
  obtain ⟨fr, m₂, hrun, hcells⟩ := hframe 1 (pairMachine #[.int 2] #[(0, 0)]) rfl rfl
  obtain ⟨cell, hcell, hheld⟩ := hcells 0 (by decide)
  refine ⟨bound, m', hbind, by rw [hbound]; rfl, fr, m₂, cell, hrun, hcell, ?_⟩
  rw [hheld, hbound]
  rfl

/-- A unit whose one cell is captured twice, from `a` and then from `b`, passes the checks, and a
new activation on `(1, 2)` leaves `2` in that cell: the entry `(0, 0)` does not get the value of
its parameter. -/
theorem later_capture_wins :
    (pairUnit #[(0, 0), (0, 1)]).validate (fun _ => false) = .ok () ∧
      ∃ fr m', Vm.newFrame 1 #[.int 1, .int 2] (pairMachine #[] #[(0, 0), (0, 1)]) = .ok fr m' ∧
        ¬ ∀ x ∈ (pairUnit #[(0, 0), (0, 1)]).cellArgs, ∃ cell v, fr.derefs[x.1]? = some cell ∧
          (#[.int 1, .int 2] : Array Value)[x.2]? = some v ∧ m'.heap.get? cell = some (.cell (some v)) := by
  have hf : (pairMachine #[] #[(0, 0), (0, 1)]).heap.get? 1 =
      some (.function { code := 0, globals := 0, defaults := #[], closure := #[] }) := rfl
  have hc : (pairMachine #[] #[(0, 0), (0, 1)]).heap.get? 0 =
      some (.code { (default : CodeObj) with unit := pairUnit #[(0, 0), (0, 1)] }) := rfl
  have hv : (pairUnit #[(0, 0), (0, 1)]).validate (fun _ => false) = .ok () := rfl
  have hb : (#[.int 1, .int 2] : Array Value).size = (pairUnit #[(0, 0), (0, 1)]).paramCount := rfl
  obtain ⟨fr, m', hrun, hseed⟩ := Vm.newFrame_seeds hf hc hv hb
  refine ⟨hv, fr, m', hrun, fun hall => ?_⟩
  obtain ⟨cell, hcell, hheld⟩ := hseed 0 (by decide)
  obtain ⟨cell', v, hcell', hv, hheld'⟩ := hall (0, 0) (by simp [pairUnit])
  rw [hcell] at hcell'
  cases hcell'
  cases hv
  rw [hheld] at hheld'
  simp [pairUnit] at hheld'

end StackVm
