import StackVm.Proofs.Loop.Interpreted
import StackVm.Interp.Run

/-! A compiled loop runs as the interpreter does.  Entered at its header, a compiled loop does,
operation by operation, what the interpreter does instruction by instruction when loops are not
compiled: it goes on where the interpreter goes on, leaves or gives the frame back where the
interpreter stands, with the same frame and store, and fails as the interpreter fails at the
same instruction, except that an operand stack error names the offset of the back-edge that
entered the loop instead of the offset of the instruction.

`loopStep_answers` is the statement for one operation; `runCompiled_interprets` for a whole
run. -/

namespace StackVm

namespace Act

open Active CompiledLoop

variable {α : Type}

/-- How the interpreter answers one operation of a compiled loop.  The operation ran from `s`
and gave `r`; the instruction at `pc` that it was decoded from ran in the interpreter and gave
`r'`.  The loop goes on to the operation decoded where the interpreter goes on; it leaves where
the interpreter jumps; it gives the frame back, untouched, at the instruction; and it fails as
the interpreter fails, except that an operand stack error names the frame's offset. -/
def Answers (c : CompiledLoop) (s : Active) (pc : Nat) (r : EStateM.Result Fault Active LoopStep)
    (r' : EStateM.Result Fault Active StepResult) : Prop :=
  match r with
  | .ok (.next j) s' => ∃ hj : j < c.ops.size, s'.frame.code = s.frame.code ∧
      s'.frame.instrPc = s.frame.instrPc ∧
      ∃ a, a.osrThreshold = none ∧ r' = .ok .next (s'.seenAt a c.ops[j].1 pc)
  | .ok (.exit (.leave p)) s' => s'.frame.pc = p ∧ ∃ a, r' = .ok .next (s'.seenAt a p pc)
  | .ok (.exit (.deopt p)) s' => p = pc ∧ s' = ⟨s.machine, { s.frame with pc }⟩
  | .error (.raise x) s' => ∃ a, r' = .error (.raise x) ⟨s'.machine.tuned a, s'.frame⟩
  | .error (.internal e) s' => ∃ e' t' a, r' = .error (.internal e') t' ∧
      e = e'.reportedAt s.frame.instrPc ∧ t'.machine = s'.machine.tuned a
  | .error .exhausted _ => False

variable {c : CompiledLoop} {i pc : Nat} {a : Tuning}

/-! ### Answering, step by step -/

/-- Where the loop and the interpreter begin with one blind computation they fail alike, and
where it ends well the rest is compared from the activation it leaves. -/
theorem answers_bind {x : Act α} (hx : Blind x) {f : α → Act LoopStep}
    {g : α → Act StepResult} {s₀ s : Active} {p : Nat}
    (hinstr : s.frame.instrPc = s₀.frame.instrPc)
    (hk : ∀ v s', x s = .ok v s' → Answers c s₀ pc (f v s') (g v (s'.seenAt a p pc))) :
    Answers c s₀ pc ((x >>= f) s) ((x >>= g) (s.seenAt a p pc)) := by
  cases hxs : x s with
  | ok v s' =>
    rw [bind_of_ok hxs, bind_of_ok (hx.ok_at hxs a p pc)]
    exact hk v s' hxs
  | error e s' =>
    obtain ⟨ie, rfl⟩ := hx.faults s _ s' hxs
    have hat : x (s.seenAt a p pc) = .error (.internal (ie.reportedAt pc)) (s'.seenAt a p pc) := by
      rw [hx.run, hxs]
      rfl
    have hself := hx.run_self s
    rw [hxs] at hself
    simp only [resultSeenAt, EStateM.Result.error.injEq, Fault.reportedAt_internal,
      Fault.internal.injEq] at hself
    rw [bind_of_error hxs, bind_of_error hat]
    refine ⟨_, _, a, rfl, ?_, rfl⟩
    rw [InternalError.reportedAt_reportedAt, ← hinstr]
    exact hself.1

theorem answers_next {j : Nat} (hj : j < c.ops.size) {s₀ s : Active}
    (hcode : s.frame.code = s₀.frame.code) (hinstr : s.frame.instrPc = s₀.frame.instrPc)
    (ha : a.osrThreshold = none) :
    Answers c s₀ pc (.ok (.next j) s) (.ok .next (s.seenAt a c.ops[j].1 pc)) :=
  ⟨hj, hcode, hinstr, a, ha, rfl⟩

/-- An operation made of blind primitives goes on to the next operation as the interpreter goes
on to the next instruction. -/
theorem answers_blind {x : Act α} (hx : Blind x) {s₀ s : Active}
    (hcode : s.frame.code = s₀.frame.code) (hinstr : s.frame.instrPc = s₀.frame.instrPc)
    (hi : i + 1 < c.ops.size) (ha : a.osrThreshold = none) :
    Answers c s₀ pc ((x >>= fun _ => pure (LoopStep.next (i + 1))) s)
      ((x >>= fun _ => pure StepResult.next) (s.seenAt a c.ops[i + 1].1 pc)) :=
  answers_bind hx hinstr fun _ _ h =>
    answers_next hi ((hx.code _ _ _ h).trans hcode) ((hx.instrPc_of_ok h).trans hinstr) ha

/-- Entering an operation answers the interpreter's jump to the instruction it was decoded
from. -/
theorem answers_enter {j n : Nat} (hland : c.Lands (.inside j) n) {s₀ s : Active}
    (hcode : s.frame.code = s₀.frame.code) (hinstr : s.frame.instrPc = s₀.frame.instrPc)
    (ha : a.osrThreshold = none) (p : Nat) :
    Answers c s₀ pc (.ok (.next j) s)
      ((jumpTo n >>= fun _ => pure StepResult.next) (s.seenAt a p pc)) := by
  obtain ⟨hj, rfl⟩ := hland
  exact answers_next hj hcode hinstr ha

theorem answers_leave {s₀ s : Active} (q p : Nat) :
    Answers c s₀ pc ((LoopStep.exit <$> leaveAt q) s)
      ((jumpTo q >>= fun _ => pure StepResult.next) (s.seenAt a p pc)) :=
  ⟨rfl, a, rfl⟩

theorem answers_deopt (s : Active) (r' : EStateM.Result Fault Active StepResult) :
    Answers c s pc ((LoopStep.exit <$> deoptAt pc) s) r' := ⟨rfl, rfl⟩

theorem answers_underflow {s t : Active} {name : String} (hname : name = s.frame.unit.name)
    (hm : t.machine = s.machine.tuned a) (q : Nat) :
    Answers c s pc (.error (.internal (.stackUnderflow s.frame.unit.name s.frame.instrPc)) s)
      (.error (.internal (.stackUnderflow name q)) t) := by
  refine ⟨_, _, a, rfl, ?_, hm⟩
  rw [hname]
  rfl

theorem reads_bind {β : Type} (g : Frame → α) (f : α → Act β) (s : Active) :
    (Act.reads g >>= f) s = f (g s.frame) s := rfl

theorem loadLocal_bind {β : Type} (s : Active) {slot : Nat} {v : Value}
    (h : s.frame.locals[slot]? = some (some v)) (f : Value → Act β) :
    (loadLocal slot >>= f) s = f v s := by
  simp only [loadLocal, bind, EStateM.bind, Act.reads, h, pure, EStateM.pure]

theorem nextValue_iterator (k : Kit) {m : Machine} {addr : Addr} {it : Iter}
    (h : m.heap.deref (.ref addr) = some (.iterator it)) :
    Vm.nextValue k (.ref addr) m = Ops.iterNext addr it m := by
  simp only [Vm.nextValue, bind, EStateM.bind, get, getThe, MonadStateOf.get, EStateM.get, h]

/-! ### One operation -/

section Ops

variable (k : Kit) (s : Active) (n : Nat) (ha : a.osrThreshold = none)
include ha

theorem answers_pop (hget : c.ops[i]? = some (pc, .pop)) (hi : i + 1 < c.ops.size) :
    Answers c s pc (loopStep c i s) (interpOp k .pop n (s.seenAt a c.ops[i + 1].1 pc)) := by
  simp only [loopStep, hget, interpOp]
  exact answers_blind blind_pop rfl rfl hi ha

theorem answers_dup (hget : c.ops[i]? = some (pc, .dup)) (hi : i + 1 < c.ops.size) :
    Answers c s pc (loopStep c i s) (interpOp k .dup n (s.seenAt a c.ops[i + 1].1 pc)) := by
  simp only [loopStep, hget, interpOp]
  simpa only [bind_assoc] using answers_blind (Blind.bind blind_peek blind_push) rfl rfl hi ha

theorem answers_rot2 (hget : c.ops[i]? = some (pc, .rot2)) (hi : i + 1 < c.ops.size) :
    Answers c s pc (loopStep c i s) (interpOp k .rot2 n (s.seenAt a c.ops[i + 1].1 pc)) := by
  simp only [loopStep, hget, interpOp]
  exact answers_blind (blind_rotate 2) rfl rfl hi ha

theorem answers_nop (hget : c.ops[i]? = some (pc, .nop)) (hi : i + 1 < c.ops.size) :
    Answers c s pc (loopStep c i s) (interpOp k .nop n (s.seenAt a c.ops[i + 1].1 pc)) := by
  simp only [loopStep, hget, interpOp]
  exact answers_next hi rfl rfl ha

theorem answers_push {v : Value} (hget : c.ops[i]? = some (pc, .push v)) (hi : i + 1 < c.ops.size) :
    Answers c s pc (loopStep c i s) (interpOp k (.push v) n (s.seenAt a c.ops[i + 1].1 pc)) := by
  simp only [loopStep, hget, interpOp]
  exact answers_blind (blind_push v) rfl rfl hi ha

theorem answers_loadLocal {slot : Nat} (hget : c.ops[i]? = some (pc, .loadLocal slot))
    (hi : i + 1 < c.ops.size) :
    Answers c s pc (loopStep c i s)
      (interpOp k (.loadLocal slot) n (s.seenAt a c.ops[i + 1].1 pc)) := by
  simp only [loopStep, hget, interpOp]
  rw [reads_bind]
  cases hl : s.frame.locals[slot]? with
  | none => exact answers_deopt s _
  | some o =>
    cases o with
    | none => exact answers_deopt s _
    | some v =>
      rw [loadLocal_bind (s.seenAt a c.ops[i + 1].1 pc) hl]
      exact answers_blind (blind_push v) rfl rfl hi ha

theorem answers_storeLocal {slot : Nat} (hget : c.ops[i]? = some (pc, .storeLocal slot))
    (hi : i + 1 < c.ops.size) :
    Answers c s pc (loopStep c i s)
      (interpOp k (.storeLocal slot) n (s.seenAt a c.ops[i + 1].1 pc)) := by
  simp only [loopStep, hget, interpOp]
  simpa only [bind_assoc] using
    answers_blind (Blind.bind blind_pop (blind_storeLocal slot)) rfl rfl hi ha

theorem answers_jump {T : LoopTarget} (hget : c.ops[i]? = some (pc, .jump T))
    (hland : c.Lands T n) (p : Nat) :
    Answers c s pc (loopStep c i s) (interpOp k (.jump T) n (s.seenAt a p pc)) := by
  cases T with
  | inside j =>
    simp only [loopStep, hget, interpOp]
    exact answers_enter hland rfl rfl ha p
  | exit q =>
    obtain rfl : q = n := hland
    simp only [loopStep, hget, interpOp]
    exact answers_leave q p

theorem answers_not (hget : c.ops[i]? = some (pc, .not)) (hi : i + 1 < c.ops.size) :
    Answers c s pc (loopStep c i s) (interpOp k .not n (s.seenAt a c.ops[i + 1].1 pc)) := by
  simp only [loopStep, hget, interpOp]
  rcases stack_cases s with hnil | ⟨st, v, hs⟩
  · rw [bind_of_error (peek_empty s hnil),
      bind_of_error (pop_empty (s.seenAt a c.ops[i + 1].1 pc) hnil)]
    exact answers_underflow rfl rfl _
  · rw [hs, seenAt_withStack, bind_of_ok (peek_push _ _ _), bind_of_ok (pop_push _ _ _)]
    split
    · rw [bind_of_ok (pop_push _ _ _), Ops.unary_not_bool, vm_pure_bind, ← seenAt_withStack]
      exact answers_blind (blind_push _) (by rfl) (by rfl) hi ha
    · exact answers_deopt _ _

/-- The conditional jumps, which differ only in the boolean they jump on: on a boolean both pop
it and jump exactly when it is that one; on anything else the loop gives the frame back. -/
theorem answers_condJump {T : LoopTarget} {x : LoopOp}
    (hx : x = .jumpIfTrue T ∨ x = .jumpIfFalse T) (hget : c.ops[i]? = some (pc, x))
    (hland : c.Lands T n) (hi : i + 1 < c.ops.size) :
    Answers c s pc (loopStep c i s) (interpOp k x n (s.seenAt a c.ops[i + 1].1 pc)) := by
  rcases hx with rfl | rfl
  all_goals
    simp only [loopStep, hget, interpOp]
    rcases stack_cases s with hnil | ⟨st, v, hs⟩
    · rw [bind_of_error (peek_empty s hnil),
        bind_of_error (pop_empty (s.seenAt a c.ops[i + 1].1 pc) hnil)]
      exact answers_underflow rfl rfl _
    · rw [hs, seenAt_withStack, bind_of_ok (peek_push _ _ _), bind_of_ok (pop_push _ _ _)]
      split
      · rw [bind_of_ok (pop_push _ _ _), heap_bind, Heap.truthy_bool, ← seenAt_withStack]
        split
        · cases T with
          | inside j => exact answers_enter hland (by rfl) (by rfl) ha _
          | exit q =>
            obtain rfl : q = n := hland
            exact answers_leave q _
        · exact answers_next hi (by rfl) (by rfl) ha
      · exact answers_deopt _ _

theorem answers_binary {o : BinaryOp} (hget : c.ops[i]? = some (pc, .binary o))
    (hi : i + 1 < c.ops.size) :
    Answers c s pc (loopStep c i s)
      (interpOp k (.binary o) n (s.seenAt a c.ops[i + 1].1 pc)) := by
  simp only [loopStep, hget, interpOp]
  rcases stack_cases₂ s with hshort | ⟨st, x, y, hs⟩
  · obtain ⟨t, hm, ht⟩ := pop_pop_short (s.seenAt a c.ops[i + 1].1 pc) hshort
    simp only [binaryOp, bind_assoc]
    rw [bind_of_error (peekAt_one_short s hshort), ht]
    exact answers_underflow rfl hm _
  · rw [hs, bind_of_ok (peekAt_one _ _ _ _), bind_of_ok (peekAt_zero _ _ _), seenAt_withStack]
    split
    · next u v =>
      cases hr : intBinary o u v with
      | ok r =>
        obtain ⟨a', ha', h⟩ := binaryOp_int (s.seenAt a c.ops[i + 1].1 pc) st hr
          fun _ => pure StepResult.next
        dsimp only
        rw [bind_of_ok (popN_two _ _ _ _), h]
        simp only [← bind_assoc]
        exact answers_blind (Blind.bind (Blind.vm (Vm.onStore_num r) (Vm.num_ok r)) blind_push)
          (by rfl) (by rfl) hi (ha'.trans ha)
      | error _ => exact answers_deopt _ _
    · exact answers_deopt _ _

theorem answers_compare {o : CompareOp} (hget : c.ops[i]? = some (pc, .compare o))
    (hi : i + 1 < c.ops.size) :
    Answers c s pc (loopStep c i s)
      (interpOp k (.compare o) n (s.seenAt a c.ops[i + 1].1 pc)) := by
  simp only [loopStep, hget, interpOp]
  rcases stack_cases₂ s with hshort | ⟨st, x, y, hs⟩
  · obtain ⟨t, hm, ht⟩ := pop_pop_short (s.seenAt a c.ops[i + 1].1 pc) hshort
    simp only [compareOp, bind_assoc]
    rw [bind_of_error (peekAt_one_short s hshort), ht]
    exact answers_underflow rfl hm _
  · rw [hs, bind_of_ok (peekAt_one _ _ _ _), bind_of_ok (peekAt_zero _ _ _), seenAt_withStack]
    split
    · next u v =>
      obtain ⟨a', ha', h⟩ := compareOp_int (s.seenAt a c.ops[i + 1].1 pc) st o u v
        fun _ => pure StepResult.next
      rw [bind_of_ok (popN_two _ _ _ _), h]
      exact answers_blind (blind_push _) (by rfl) (by rfl) hi (ha'.trans ha)
    · exact answers_deopt _ _

theorem answers_forIter (m : Nat) {T : LoopTarget} (hget : c.ops[i]? = some (pc, .forIter T))
    (hland : c.Lands T n) (hi : i + 1 < c.ops.size)
    (hnext : c.ops[i + 1].1 = pc + Opcode.forIter.width) :
    Answers c s pc (loopStep c i s)
      (interpOp (kit (m + 1)) (.forIter T) n (s.seenAt a c.ops[i + 1].1 pc)) := by
  simp only [loopStep, hget, interpOp]
  rcases stack_cases s with hnil | ⟨st, it, hs⟩
  · rw [bind_of_error (peek_empty s hnil),
      bind_of_error (peek_empty (s.seenAt a c.ops[i + 1].1 pc) hnil)]
    exact answers_underflow rfl rfl _
  · rw [hs, bind_of_ok (peek_push _ _ _), bind_of_ok (blind_peek.ok_at (peek_push _ _ _) _ _ _),
      heap_bind]
    generalize hd : (s.withStack (st.push it)).machine.heap.deref it = d
    split
    · next addr it' =>
      generalize s.withStack (st.push (.ref addr)) = S at hd ⊢
      have hctx := withContext_seenAt (Ops.onStore_iterNext addr it') S
        (fun m' hm' => nextValue_iterator (kit m) (hm' ▸ hd)) a c.ops[i + 1].1 pc
      rw [show (kit (m + 1)).next (.ref addr) = Vm.nextValue (kit m) (.ref addr) from rfl]
      cases hr : Ops.iterNext addr it' S.machine with
      | ok r m₁ =>
        have hvm : (some <$> vm (Ops.iterNext addr it')) S = .ok (some r) ⟨m₁, S.frame⟩ := by
          show EStateM.map _ _ _ = _
          simp only [EStateM.map, vm_of_ok hr]
        rw [vm_of_ok hr] at hctx
        rw [bind_of_ok (tryCatch_ok hvm), bind_of_ok hctx]
        cases r with
        | some item => exact answers_blind (blind_push item) (by rfl) (by rfl) hi ha
        | none =>
          dsimp only
          refine answers_bind blind_pop rfl fun _ s₂ h₂ => ?_
          cases T with
          | inside j =>
            exact answers_enter hland (blind_pop.code _ _ _ h₂) (blind_pop.instrPc_of_ok h₂) ha _
          | exit q =>
            obtain rfl : q = n := hland
            exact answers_leave q _
      | error e m₁ =>
        obtain ⟨x, rfl⟩ := Ops.raises_iterNext addr it' _ _ _ hr
        have hvm : (some <$> vm (Ops.iterNext addr it')) S = .error (.raise x) ⟨m₁, S.frame⟩ := by
          show EStateM.map _ _ _ = _
          simp only [EStateM.map, vm_of_error hr]
        rw [vm_of_error hr] at hctx
        rw [tryCatch_bind_error hvm, bind_of_error hctx, hnext]
        exact ⟨a, rfl⟩
    · exact answers_deopt _ _

end Ops

/-- One operation of a compiled loop answers the instruction it was decoded from, run by the
interpreter when loops are not compiled. -/
theorem loopStep_answers {u : CodeUnit} {fast : Bool} (hr : Region u fast c) (m : Nat)
    {s : Active} (hu : s.frame.unit = u) (ha : a.osrThreshold = none) {i : Nat}
    (hi : i < c.ops.size) (q : Nat) :
    Answers c s c.ops[i].1 (loopStep c i s) (step (kit (m + 1)) (s.seenAt a c.ops[i].1 q)) := by
  obtain ⟨op, x, t, hop, hdec, ⟨T, hT⟩, hland, hnext⟩ := hr.decoded i hi
  have hget : c.ops[i]? = some (c.ops[i].1, c.ops[i].2) := by simp [hi]
  rw [step_seenAt s a _ q (kit (m + 1)) (hu ▸ hop), exec_of_decodeAt s a _ hdec _ hu ha,
    ← interpOp_retarget _ x T, ← hT]
  have hmid : (∀ T, c.ops[i].2 ≠ .jump T) →
      ∃ hi' : i + 1 < c.ops.size, c.ops[i + 1].1 = c.ops[i].1 + op.width :=
    fun h => ⟨hr.succ_lt hi h, hnext (hr.succ_lt hi h)⟩
  generalize hy : c.ops[i].2 = y at hget hland hT hmid
  have hcont : (∀ T, y ≠ .jump T) → ∃ hi' : i + 1 < c.ops.size,
      interpOp (kit (m + 1)) y (t.getD 0) (s.seenAt a (c.ops[i].1 + op.width) c.ops[i].1) =
        interpOp (kit (m + 1)) y (t.getD 0) (s.seenAt a c.ops[i + 1].1 c.ops[i].1) := by
    intro h
    obtain ⟨hi', hw⟩ := hmid h
    exact ⟨hi', by rw [hw]⟩
  cases y with
  | loadLocal slot =>
    obtain ⟨hi', he⟩ := hcont fun _ h => by cases h
    exact he ▸ answers_loadLocal _ s _ ha hget hi'
  | storeLocal slot =>
    obtain ⟨hi', he⟩ := hcont fun _ h => by cases h
    exact he ▸ answers_storeLocal _ s _ ha hget hi'
  | push v =>
    obtain ⟨hi', he⟩ := hcont fun _ h => by cases h
    exact he ▸ answers_push _ s _ ha hget hi'
  | pop =>
    obtain ⟨hi', he⟩ := hcont fun _ h => by cases h
    exact he ▸ answers_pop _ s _ ha hget hi'
  | dup =>
    obtain ⟨hi', he⟩ := hcont fun _ h => by cases h
    exact he ▸ answers_dup _ s _ ha hget hi'
  | rot2 =>
    obtain ⟨hi', he⟩ := hcont fun _ h => by cases h
    exact he ▸ answers_rot2 _ s _ ha hget hi'
  | nop =>
    obtain ⟨hi', he⟩ := hcont fun _ h => by cases h
    exact he ▸ answers_nop _ s _ ha hget hi'
  | binary o =>
    obtain ⟨hi', he⟩ := hcont fun _ h => by cases h
    exact he ▸ answers_binary _ s _ ha hget hi'
  | compare o =>
    obtain ⟨hi', he⟩ := hcont fun _ h => by cases h
    exact he ▸ answers_compare _ s _ ha hget hi'
  | not =>
    obtain ⟨hi', he⟩ := hcont fun _ h => by cases h
    exact he ▸ answers_not _ s _ ha hget hi'
  | jump T' => exact answers_jump _ s _ ha hget (hland T' rfl) _
  | jumpIfTrue T' =>
    obtain ⟨hi', he⟩ := hcont fun _ h => by cases h
    exact he ▸ answers_condJump _ s _ ha (.inl rfl) hget (hland T' rfl) hi'
  | jumpIfFalse T' =>
    obtain ⟨hi', he⟩ := hcont fun _ h => by cases h
    exact he ▸ answers_condJump _ s _ ha (.inr rfl) hget (hland T' rfl) hi'
  | forIter T' =>
    obtain ⟨T'', rfl⟩ : ∃ T'', x = .forIter T'' := by
      cases x <;> simp only [LoopOp.retarget, reduceCtorEq] at hT
      exact ⟨_, rfl⟩
    obtain rfl := decodeAt_forIter hdec
    obtain ⟨hi', hw⟩ := hmid fun _ h => by cases h
    rw [← hw]
    exact answers_forIter s _ ha m hget (hland T' rfl) hi' hw

/-! ### A whole run -/

/-- The interpreter goes from `t` to `t'` in `n` instructions, each going on to the next. -/
inductive Steps (k : Kit) : Nat → Active → Active → Prop
  | refl (t : Active) : Steps k 0 t t
  | next {n : Nat} {t t' t'' : Active} :
      step k t = .ok .next t' → Steps k n t' t'' → Steps k (n + 1) t t''

theorem Steps.execLoop {k : Kit} {n : Nat} {t t' : Active} (h : Steps k n t t') (fuel : Nat) :
    Act.execLoop k (n + fuel) t = Act.execLoop k fuel t' := by
  induction h with
  | refl => rw [Nat.zero_add]
  | @next n t t₁ t'' hstep _ ih =>
    rw [show n + 1 + fuel = n + fuel + 1 by omega, Act.execLoop, hstep]
    exact ih

/-- How the interpreter answers a run of a compiled loop from `s` for `fuel` operations, from
`t`: it goes through instructions to where the loop leaves or gives the frame back, with the
frame and store the loop leaves; it raises the exception the loop raised, with the same frame;
it fails as the loop failed, except for the offset an operand stack error names, which in the
loop is the frame's offset; and it goes on through as many instructions as the loop ran
operations when the loop runs out of them. -/
def RunAnswers (k : Kit) (s : Active) (fuel : Nat) (t : Active) :
    EStateM.Result Fault Active LoopExit → Prop
  | .ok (.leave p) s' | .ok (.deopt p) s' =>
    ∃ n t', Steps k n t t' ∧ s'.frame.pc = p ∧ ∃ a q, t' = s'.seenAt a p q
  | .error (.raise x) s' => ∃ n t', Steps k n t t' ∧
    ∃ a, step k t' = .error (.raise x) ⟨s'.machine.tuned a, s'.frame⟩
  | .error (.internal e) s' => ∃ n t', Steps k n t t' ∧ ∃ e' t'' a,
    step k t' = .error (.internal e') t'' ∧ e = e'.reportedAt s.frame.instrPc ∧
      t''.machine = s'.machine.tuned a
  | .error .exhausted _ => ∃ t', Steps k fuel t t'

theorem RunAnswers.cons {k : Kit} {s s' t t' : Active} {fuel : Nat}
    {r : EStateM.Result Fault Active LoopExit} (hstep : step k t = .ok .next t')
    (hinstr : s'.frame.instrPc = s.frame.instrPc) (h : RunAnswers k s' fuel t' r) :
    RunAnswers k s (fuel + 1) t r :=
  match r, h with
  | .ok (.leave _) _, ⟨n, t'', hs, h⟩ | .ok (.deopt _) _, ⟨n, t'', hs, h⟩
  | .error (.raise _) _, ⟨n, t'', hs, h⟩ => ⟨n + 1, t'', .next hstep hs, h⟩
  | .error (.internal _) _, ⟨n, t'', hs, e', t₃, a, h₁, h₂, h₃⟩ =>
    ⟨n + 1, t'', .next hstep hs, e', t₃, a, h₁, hinstr ▸ h₂, h₃⟩
  | .error .exhausted _, ⟨t'', hs⟩ => ⟨t'', .next hstep hs⟩

/-- A run of a compiled loop from any of its operations answers the interpreter run, with loops
not compiled, from the instruction that operation was decoded from.  The induction is on the
fuel; each operation is answered by `loopStep_answers`, which also carries the invariant: the
frame runs the loop's unit, keeps its offset, and the interpreter's machine is the loop's
retuned. -/
theorem runCompiled_answers {u : CodeUnit} {fast : Bool} (hr : Region u fast c) (m fuel : Nat) :
    ∀ {j : Nat} {s : Active} {a : Tuning} (q : Nat), s.frame.unit = u →
      a.osrThreshold = none → (hj : j < c.ops.size) →
      RunAnswers (kit (m + 1)) s fuel (s.seenAt a c.ops[j].1 q) (runCompiled c fuel j s) := by
  induction fuel with
  | zero => exact fun _ _ _ _ => ⟨_, .refl _⟩
  | succ fuel ih =>
    intro j s a q hu ha hj
    have hans := loopStep_answers hr m hu ha hj q
    show RunAnswers _ s (fuel + 1) _ (EStateM.bind (loopStep c j) _ s)
    simp only [EStateM.bind]
    generalize loopStep c j s = r at hans ⊢
    match r, hans with
    | .ok (.next i) s', ⟨hi, hcode, hinstr, a', ha', hst⟩ =>
      have hu' : s'.frame.unit = u := by
        rw [Frame.unit, hcode]
        exact hu
      exact (ih c.ops[j].1 hu' ha' hi).cons hst hinstr
    | .ok (.exit (.leave p)) s', ⟨hpc, a', hst⟩ => exact ⟨1, _, .next hst (.refl _), hpc, a', _, rfl⟩
    | .ok (.exit (.deopt p)) s', ⟨hp, hs'⟩ =>
      subst hp hs'
      exact ⟨0, _, .refl _, rfl, a, q, rfl⟩
    | .error (.raise x) s', ⟨a', hst⟩ => exact ⟨0, _, .refl _, a', hst⟩
    | .error (.internal e) s', ⟨e', t', a', hst, he, hm⟩ =>
      exact ⟨0, _, .refl _, e', t', a', hst, he, hm⟩
    | .error .exhausted _, h => exact h.elim

/-! ### Loops compiled at a back-edge -/

/-- A loop compiled at a back-edge of a unit that validates, entered at its header with a frame
of that unit, runs as the interpreter runs from the header when loops are not compiled, for any
fuel: it leaves or gives the frame back where the interpreter stands, with the same frame and
store; it raises what the interpreter raises, with the same frame; and it fails as the
interpreter fails, except that an operand stack error names the offset the frame entered the
loop at, the back-edge's, and not the offset of the instruction that raised it. -/
theorem compiledLoop_answers_interpreter {isCode : Value → Bool} {u : CodeUnit} {b depth : Nat}
    {fast : Bool} {c : CompiledLoop} (hv : u.validate isCode = .ok ())
    (hb : ∀ starts, u.instructionStarts = .ok starts → b ∈ starts)
    (hop : Opcode.ofByte? (u.byteAt b) = some .jumpBackward)
    (hc : compile u (b - u.u16At (b + 1)) b depth fast = .ok c) (m fuel : Nat) {s : Active}
    (hu : s.frame.unit = u) {a : Tuning} (ha : a.osrThreshold = none) (q : Nat) :
    RunAnswers (kit (m + 1)) s fuel (s.seenAt a c.header q) (runCompiled c fuel 0 s) := by
  have hr := compile_region hv hb hop hc
  have h := runCompiled_answers hr m fuel q hu ha hr.size_pos
  rwa [hr.header] at h

/-- A unit whose code is one loop: push `None`, jump back to it. -/
def spinUnit : CodeUnit :=
  { (default : CodeUnit) with name := "f", bytecode := ⟨#[8, 70, 1, 0]⟩, stackSize := 1 }

/-- An activation of `spinUnit`. -/
def spinActive : Active :=
  ⟨{}, { (default : Frame) with code := { (default : CodeObj) with unit := spinUnit } }⟩

/-- The loop of `spinUnit`, as compiled at its back-edge. -/
def spinLoop : CompiledLoop :=
  { header := 0, entryDepth := 0, ops := #[(0, .push .none), (1, .jump (.inside 0))] }

theorem spinLoop_answers_interpreter :
    spinUnit.validate (fun _ => false) = .ok () ∧
      compile spinUnit (1 - spinUnit.u16At (1 + 1)) 1 0 true = .ok spinLoop ∧
      RunAnswers (kit 1) spinActive 4 (spinActive.seenAt ⟨#[], {}, none⟩ 0 0)
        (runCompiled spinLoop 4 0 spinActive) := by
  have hv : spinUnit.validate (fun _ => false) = .ok () := rfl
  have hb : ∀ starts, spinUnit.instructionStarts = .ok starts → 1 ∈ starts := by
    intro starts h
    rw [show spinUnit.instructionStarts = .ok #[0, 1] from rfl] at h
    cases h
    simp
  have hc : compile spinUnit (1 - spinUnit.u16At (1 + 1)) 1 0 true = .ok spinLoop := by
    have hw : 1 - spinUnit.u16At (1 + 1) = 0 := rfl
    have hsize : spinUnit.bytecode.size = 4 := rfl
    have hd : decodeFrom spinUnit true 4 5 0 #[] =
        .ok #[(0, .push .none, none), (1, .jump (.exit 0), some 0)] := rfl
    rw [hw]
    simp only [compile, gt_iff_lt, Nat.not_lt_zero, decide_false, Opcode.width, Opcode.operandLen,
      Nat.reduceAdd, hsize, Nat.lt_irrefl, Bool.or_self, Bool.false_eq_true, ↓reduceIte, bind,
      Except.bind, Nat.sub_zero, hd, resolve, Except.map, Nat.zero_le, true_and, indexOf,
      List.map_toArray, List.map_cons, List.map_nil, List.findIdx?_toArray, List.findIdx?_cons,
      beq_iff_eq, List.findIdx?_nil, Option.map_none, Option.map_if, Nat.zero_add,
      List.mapM_toArray, List.mapM_cons, Nat.zero_lt_succ, List.mapM_nil, spinLoop]
    rfl
  exact ⟨hv, hc, compiledLoop_answers_interpreter hv hb rfl hc 0 4 rfl rfl 0⟩

end Act

end StackVm
