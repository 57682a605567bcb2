import StackVm.Proofs.Activation.Blind
import StackVm.Proofs.Loop.Region
import StackVm.Proofs.Ops.Inline

/-! The interpreter at an instruction of a compiled loop.  `Act.interpOp` is what the
interpreter does for an instruction that a compiled loop decodes as a loop operation, once the
instruction's operands are read: the instruction's own code with its jump resolved to a target
offset.  The main statement, `exec_of_decodeAt`, says that the interpreter runs exactly that,
whenever loops are not compiled. -/

namespace StackVm

namespace Act

open Active

/-- What the interpreter does for an instruction that a compiled loop decodes as `x`, once the
instruction's operands are read; `target` is where its jump goes. -/
def interpOp (k : Kit) (x : LoopOp) (target : Nat) : Act StepResult :=
  let next : Act StepResult := pure .next
  match x with
  | .loadLocal slot => do push (← loadLocal slot); next
  | .storeLocal slot => do storeLocal slot (← pop); next
  | .push v => do push v; next
  | .pop => do let _ ← pop; next
  | .dup => do push (← peek); next
  | .rot2 => do rotate 2; next
  | .nop => next
  | .binary o => do binaryOp o; next
  | .compare o => do compareOp o; next
  | .not => do
    let v ← pop
    push (← vm (Ops.unary .not v))
    next
  | .jump _ => do jumpTo target; next
  | .jumpIfTrue _ => do
    let v ← pop
    if (← heap).truthy v == true then jumpTo target
    next
  | .jumpIfFalse _ => do
    let v ← pop
    if (← heap).truthy v == false then jumpTo target
    next
  | .forIter _ => do
    let it ← peek
    match ← withContext (k.next it) with
    | some item => push item
    | none => do
      let _ ← pop
      jumpTo target
    next

theorem interpOp_retarget (k : Kit) (x : LoopOp) (T : LoopTarget) (n : Nat) :
    interpOp k (x.retarget T) n = interpOp k x n := by
  cases x <;> rfl

variable {α : Type} (s : Active) (a : Tuning) (p q : Nat)

theorem nextByte_bind (f : Nat → Act α) :
    (nextByte >>= f) (s.seenAt a p q) = f (s.frame.unit.byteAt p) (s.seenAt a (p + 1) q) := rfl

theorem nextWord_bind (f : Nat → Act α) :
    (nextWord >>= f) (s.seenAt a p q) = f (s.frame.unit.u16At p) (s.seenAt a (p + 2) q) := rfl

theorem nextSignedWord_bind (f : Int → Act α) :
    (nextSignedWord >>= f) (s.seenAt a p q) = f (s.frame.unit.i16At p) (s.seenAt a (p + 2) q) :=
  rfl

theorem step_seenAt (k : Kit) {op : Opcode} (hop : Opcode.ofByte? (s.frame.unit.byteAt p) = some op) :
    step k (s.seenAt a p q) = exec k op (s.seenAt a (p + 1) p) := by
  simp only [step, nextByte, modifyFrame, Act.reads, bind, EStateM.bind, seenAt, pure,
    EStateM.pure, Frame.unit_withOffsets, hop]

theorem jumpBy_eq_jumpTo {s : Active} {p : Nat} (h : s.frame.pc = p) (d : Int) :
    jumpBy d s = jumpTo (↑p + d).toNat s := by
  obtain ⟨m, f⟩ := s
  dsimp only at h
  subst h
  rfl

theorem frame_of_withContext {x : Vm α} {s s' : Active} {v : α} (h : withContext x s = .ok v s') :
    s'.frame = s.frame := by
  obtain ⟨m, f⟩ := s
  simp only [withContext] at h
  split at h
  · cases h
    rfl
  · cases h

theorem backEdge_of_noThreshold {s : Active} {d : Nat} (hd : d ≤ s.frame.instrPc)
    (ha : s.machine.config.osrThreshold = none) :
    backEdge d s = jumpTo (s.frame.instrPc - d) s := by
  obtain ⟨m, f⟩ := s
  dsimp only at hd ha
  simp [backEdge, Act.reads, readsMachine, jumpTo, modifyFrame, bind, EStateM.bind, pure,
    EStateM.pure, ha, Nat.not_lt.mpr hd]

theorem bind_run_congr {x y : Act α} {β : Type} {f : α → Act β} {s : Active} (h : x s = y s) :
    (x >>= f) s = (y >>= f) s := by
  show EStateM.bind x f s = EStateM.bind y f s
  simp only [EStateM.bind, h]

theorem condJump_congr {s : Active} {p : Nat} (hpc : s.frame.pc = p) (c : Prop) [Decidable c]
    (d : Int) :
    (if c then (jumpBy d >>= fun _ => pure StepResult.next) else pure .next) s =
      (if c then (jumpTo (↑p + d).toNat >>= fun _ => pure StepResult.next) else pure .next) s := by
  split
  · exact bind_run_congr (jumpBy_eq_jumpTo hpc d)
  · rfl

theorem exec_of_decodeAt {u : CodeUnit} {fast : Bool} {op : Opcode} {x : LoopOp}
    {t : Option Nat} (hdec : CompiledLoop.decodeAt u fast p op = .ok (x, t)) (k : Kit)
    (hu : s.frame.unit = u) (ha : a.osrThreshold = none) :
    exec k op (s.seenAt a (p + 1) p) = interpOp k x (t.getD 0) (s.seenAt a (p + op.width) p) := by
  unfold CompiledLoop.decodeAt at hdec
  dsimp only at hdec
  split at hdec
  case h_1 | h_2 | h_3 | h_4 | h_5 | h_6 | h_7 | h_8 | h_9 | h_10 | h_11 | h_12 | h_13 | h_14
    | h_15 | h_16 =>
    cases hdec
    subst hu
    rfl
  case h_17 o =>
    cases o <;> simp at hdec
    all_goals
      split at hdec
      · cases hdec
        subst hu
        rfl
      · cases hdec
  case h_18 =>
    split at hdec
    · cases hdec
      subst hu
      rfl
    · cases hdec
  case h_19 =>
    split at hdec
    · cases hdec
    · cases hdec
      subst hu
      rfl
  case h_20 | h_21 =>
    split at hdec
    · cases hdec
    · cases hdec
      subst hu
      simp only [exec, interpOp, nextSignedWord_bind, Opcode.width, Opcode.operandLen,
        Nat.add_assoc, Nat.reduceAdd, Option.getD_some]
      refine bind_congr_run fun v s₁ h₁ => ?_
      refine bind_congr_run fun hp s₂ h₂ => ?_
      have hpc : s₂.frame.pc = p + 3 :=
        ((Blind.readsMachine fun _ _ => rfl).pc_of_ok h₂).trans (blind_pop.pc_of_ok h₁)
      simp only [show (Opcode.jumpIfFalse == Opcode.jumpIfTrue) = false from rfl,
        beq_self_eq_true]
      exact condJump_congr hpc _ _
  case h_22 =>
    split at hdec
    · cases hdec
    · cases hdec
      subst hu
      simp only [exec, interpOp, nextSignedWord_bind, Opcode.width, Opcode.operandLen,
        Nat.add_assoc, Nat.reduceAdd, Option.getD_some]
      refine bind_congr_run fun it s₁ h₁ => ?_
      refine bind_congr_run fun r s₂ h₂ => ?_
      have hpc : s₂.frame.pc = p + 3 := by
        rw [frame_of_withContext h₂, blind_peek.pc_of_ok h₁]
        rfl
      cases r with
      | some item => rfl
      | none =>
        dsimp only
        refine bind_congr_run fun _ s₃ h₃ => ?_
        exact bind_run_congr (jumpBy_eq_jumpTo ((blind_pop.pc_of_ok h₃).trans hpc) _)
  case h_23 =>
    split at hdec
    · cases hdec
    · next hd =>
      cases hdec
      subst hu
      simp only [exec, interpOp, nextWord_bind, Opcode.width, Opcode.operandLen, Nat.add_assoc,
        Nat.reduceAdd, Option.getD_some]
      exact bind_run_congr (backEdge_of_noThreshold (Nat.not_lt.mp hd) ha)
  case h_24 => cases hdec

/-! ### The operators on immediate operands -/

section Operators

variable {β : Type} (t : Active) (rest : Array Value)

theorem heap_bind (f : Heap → Act β) : (heap >>= f) t = f t.machine.heap t := rfl

theorem ofExcept_ok_bind (v : α) (f : α → Act β) : (ofExcept (.ok v) >>= f) t = f v t := rfl

/-- An operator pops its two operands and notes its site before anything else; on two operands
above `rest` that leaves `rest` and only retunes the machine. -/
theorem popTwo_noteOperator (x y : Value) (kind : Heap → Value → Value → SiteCache)
    (hits : Heap → Value → Value → SiteCache → Bool)
    (g : Heap → Value → Value → Option SiteCache → Act β) :
    ∃ a' hit, a'.osrThreshold = t.machine.config.osrThreshold ∧
      (pop >>= fun y => pop >>= fun x => heap >>= fun h =>
          noteOperator (kind h x y) (hits h x y) >>= fun hit => g h x y hit)
        (t.withStack ((rest.push x).push y)) =
      g t.machine.heap x y hit ((t.withStack rest).seenAt a' t.frame.pc t.frame.instrPc) := by
  obtain ⟨hit, a', ha', hnote⟩ :=
    (retunes_noteOperator (kind t.machine.heap x y) (hits t.machine.heap x y)).run
      (t.withStack rest) t.machine.tuning t.frame.pc t.frame.instrPc
  have hnote' : noteOperator (kind t.machine.heap x y) (hits t.machine.heap x y) (t.withStack rest) =
      .ok hit ((t.withStack rest).seenAt a' t.frame.pc t.frame.instrPc) := hnote
  refine ⟨a', hit, ha', ?_⟩
  rw [bind_of_ok (pop_push _ _ _), bind_of_ok (pop_push _ _ _), heap_bind, withStack_machine,
    bind_of_ok hnote']

/-- A binary operator on two immediate integers whose integer operation gives `r` pushes the
number `r`, on the machine retuned by the operator site. -/
theorem binaryOp_int {o : BinaryOp} {u v : Int} {r : Num} (hr : intBinary o u v = .ok r)
    (f : Unit → Act β) :
    ∃ a', a'.osrThreshold = t.machine.config.osrThreshold ∧
      (binaryOp o >>= f) (t.withStack ((rest.push (.int u)).push (.int v))) =
        ((vm (Vm.num r) >>= push) >>= f)
          ((t.withStack rest).seenAt a' t.frame.pc t.frame.instrPc) := by
  obtain ⟨a', hit, ha', h⟩ := popTwo_noteOperator t rest (.int u) (.int v)
    (fun h x y => binaryKind h o x y) (fun h x y c => (inlineBinary h o c x y).isSome)
    fun h x y hit => vm (binaryAt h o hit x y) >>= fun r => push r >>= f
  refine ⟨a', ha', ?_⟩
  simp only [binaryOp, bind_assoc]
  rw [h, binaryAt_int, hr]
  simp only [Vm.ofExcept, pure_bind]

/-- A rich comparison of two immediate integers pushes how the integers compare, on the
machine retuned by the operator site. -/
theorem compareOp_int (o : CompareOp) (u v : Int) (f : Unit → Act β) :
    ∃ a', a'.osrThreshold = t.machine.config.osrThreshold ∧
      (compareOp o >>= f) (t.withStack ((rest.push (.int u)).push (.int v))) =
        (push (.bool (o.holds (Ord.compare u v))) >>= f)
          ((t.withStack rest).seenAt a' t.frame.pc t.frame.instrPc) := by
  obtain ⟨a', hit, ha', h⟩ := popTwo_noteOperator t rest (.int u) (.int v)
    (fun h x y => compareKind h x y) (fun h x y c => (inlineCompare h o c x y).isSome)
    fun h x y hit => ofExcept (compareAt h o hit x y) >>= fun r => push (.bool r) >>= f
  refine ⟨a', ha', ?_⟩
  simp only [compareOp, bind_assoc]
  rw [h, compareAt_int, ofExcept_ok_bind]

end Operators

end Act

end StackVm
