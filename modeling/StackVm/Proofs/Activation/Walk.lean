import StackVm.Proofs.Activation.Room

/-! The walk a unit's stack bound is computed along, and the activations of the unit met while it
runs.  `CodeUnit.DepthAt u pc d` says the walk reaches offset `pc` with depth `d`: it starts at
offset zero with depth zero and goes from each instruction to the next one, adding the stack
effect of the instruction, as long as the instruction falls through and the depth stays at zero
or above.  `CodeUnit.Straight u` says that every instruction the walk reaches decodes, jumps
nowhere, and has room under the unit's bound for its effect.

`Active.Runs u` are the activations of `u` met from its start: a fresh frame at offset zero with
an empty operand stack, whatever its machine, slots and cells; the frame one instruction on; and
a yielded frame resumed on any machine with any value sent in.  On a straight unit the height of
the operand stack in every one of them is the depth the walk gives its offset, and no push of
the unit's own fails: a step that fails ends within the bound, and with room left when the
failure is an overflow, which therefore comes from an activation run inside this one. -/

namespace StackVm

namespace CodeUnit

/-- The stack effect of the instruction `op` at offset `pc`, read from its operand bytes. -/
def effectAt (u : CodeUnit) (op : Opcode) (pc : Nat) : Int :=
  op.stackEffect (u.operandAt op (pc + 1)) (u.byteAt (pc + 3))

/-- The walk along the fall-through path, which gives an offset the depth of the operand stack
before its instruction. -/
inductive DepthAt (u : CodeUnit) : Nat → Int → Prop
  | start : DepthAt u 0 0
  | next {pc : Nat} {d : Int} {op : Opcode} : DepthAt u pc d →
      Opcode.ofByte? (u.byteAt pc) = some op → op.isTerminal = false →
      0 ≤ d + u.effectAt op pc → DepthAt u (pc + op.width) (d + u.effectAt op pc)

/-- Every instruction the walk reaches decodes, is no jump, and has room under the unit's bound
for its effect. -/
def Straight (u : CodeUnit) : Prop :=
  ∀ pc d, u.DepthAt pc d → ∃ op, Opcode.ofByte? (u.byteAt pc) = some op ∧
    op.isRelativeJump = false ∧ op ≠ .jumpBackward ∧ d + max 0 (u.effectAt op pc) ≤ u.stackSize

end CodeUnit

/-- The activations of the unit `u` met while it runs from its start.  A unit with no handler
ranges never resumes after a failed instruction, so these are all of them. -/
inductive Active.Runs (u : CodeUnit) : Active → Prop
  | start {s : Active} : s.frame.unit = u → s.frame.pc = 0 → s.frame.stack.size = 0 →
      Active.Runs u s
  | step {s t : Active} (k : Kit) : Active.Runs u s → Act.step k s = .ok .next t →
      Active.Runs u t
  | resume {s t t' : Active} (k : Kit) (v : Value) (m : Machine) (w : Value) :
      Active.Runs u s → Act.step k s = .ok (.exit (.yield v)) t →
      Act.enterFrame m t.frame (.send w) = .ok () t' → Active.Runs u t'

namespace Act

variable {k : Kit} {u : CodeUnit} {s t : Active} {op : Opcode}

theorem step_eq_exec (k : Kit) (hop : Opcode.ofByte? (s.frame.unit.byteAt s.frame.pc) = some op) :
    step k s = exec k op (s.seenAt s.machine.tuning (s.frame.pc + 1) s.frame.pc) := by
  have h := step_seenAt s s.machine.tuning s.frame.pc s.frame.instrPc k hop
  rwa [Active.seenAt_self] at h

theorem straight_at (hu : u.Straight) (hunit : s.frame.unit = u)
    (hd : u.DepthAt s.frame.pc s.frame.stack.size) :
    ∃ op, Opcode.ofByte? (s.frame.unit.byteAt s.frame.pc) = some op ∧
      op.isRelativeJump = false ∧ op ≠ .jumpBackward ∧
      s.frame.stack.size + max 0 (u.effectAt op s.frame.pc) ≤ u.stackSize := by
  rw [hunit]
  exact hu _ _ hd

theorem step_room (hj : op.isRelativeJump = false) (hb : op ≠ .jumpBackward) (hy : op ≠ .yield)
    (hop : Opcode.ofByte? (s.frame.unit.byteAt s.frame.pc) = some op) :
    RoomAt (step k) s op.width (s.frame.unit.effectAt op s.frame.pc)
      (max 0 (s.frame.unit.effectAt op s.frame.pc)) := by
  refine RoomAt.of_run (m := 1) (step_eq_exec k hop) rfl rfl rfl ?_
  have h := exec_room k op s s.machine.tuning (s.frame.pc + 1) s.frame.pc hj hb hy
  have hw : ((op.width : Nat) : Int) - ((1 : Nat) : Int) = op.operandLen := by
    simp [Opcode.width]
  rw [hw]
  exact h

theorem step_yield_room (hop : Opcode.ofByte? (s.frame.unit.byteAt s.frame.pc) = some .yield) :
    RoomAt (step k) s 1 (-1) 0 :=
  RoomAt.of_run (m := 1) (step_eq_exec k hop) rfl rfl rfl (exec_yield_room k _)

theorem yield_of_step (hop : Opcode.ofByte? (s.frame.unit.byteAt s.frame.pc) = some op) {v : Value}
    (h : step k s = .ok (.exit (.yield v)) t) : op = .yield := by
  by_contra hy
  rw [step_eq_exec k hop] at h
  exact exec_not_yield k hy _ _ _ h ⟨v, rfl⟩

theorem not_yield_of_step_next (hop : Opcode.ofByte? (s.frame.unit.byteAt s.frame.pc) = some op)
    (h : step k s = .ok .next t) : op ≠ .yield := by
  rintro rfl
  rw [step_eq_exec k hop] at h
  exact StepResult.not_isYield_next (exec_yield k _ _ _ h)

theorem not_terminal_of_step_next (hj : op.isRelativeJump = false) (hb : op ≠ .jumpBackward)
    (hop : Opcode.ofByte? (s.frame.unit.byteAt s.frame.pc) = some op)
    (h : step k s = .ok .next t) : op.isTerminal = false := by
  cases ht : op.isTerminal
  · rfl
  · have hjump : op ≠ .jump := by
      rintro rfl
      simp [Opcode.isRelativeJump] at hj
    rw [step_eq_exec k hop] at h
    exact absurd rfl (exec_terminal k ht hjump hb _ _ _ h)

theorem enterFrame_send {m : Machine} {f : Frame} {w : Value} {t' : Active}
    (h : enterFrame m f (.send w) = .ok () t') :
    t'.frame.code = f.code ∧ t'.frame.pc = f.pc ∧ t'.frame.stack.size = f.stack.size + 1 := by
  obtain ⟨hc, hpc, hsz⟩ := (room_push w ⟨m, { f with inherited := m.context }⟩).ok () t' h
  dsimp only at hc hpc hsz
  exact ⟨hc, by omega, by omega⟩

end Act

namespace Active.Runs

open Act

variable {u : CodeUnit} {s : Active}

/-- The height of the operand stack at every activation met is the depth the walk gives its
offset.  Induction on how the activation is met: one instruction on, the walk takes the same
step as the interpreter; a resumed yield has taken its value off and got one back. -/
theorem depthAt (hu : u.Straight) (hs : s.Runs u) :
    s.frame.unit = u ∧ u.DepthAt s.frame.pc s.frame.stack.size := by
  induction hs with
  | start hunit hpc hsize =>
    refine ⟨hunit, ?_⟩
    rw [hpc, hsize, Nat.cast_zero]
    exact .start
  | @step s t k _ hstep ih =>
    obtain ⟨hunit, hd⟩ := ih
    obtain ⟨op, hop, hj, hb, -⟩ := straight_at hu hunit hd
    have hy := not_yield_of_step_next hop hstep
    have ht := not_terminal_of_step_next hj hb hop hstep
    obtain ⟨hc, hpc, hsz⟩ := (step_room hj hb hy hop).ok _ _ hstep
    have hunit' : t.frame.unit = u := by rw [← hunit]; simp [Frame.unit, hc]
    refine ⟨hunit', ?_⟩
    rw [hunit] at hop hsz
    have hnext := CodeUnit.DepthAt.next hd hop ht (by omega)
    rwa [show t.frame.pc = s.frame.pc + op.width by omega,
      show (t.frame.stack.size : Int) = s.frame.stack.size + u.effectAt op s.frame.pc by omega]
  | @resume s t t' k v m w _ hstep henter ih =>
    obtain ⟨hunit, hd⟩ := ih
    obtain ⟨op, hop, -, -, -⟩ := straight_at hu hunit hd
    obtain rfl := yield_of_step hop hstep
    obtain ⟨hc, hpc, hsz⟩ := (step_yield_room hop).ok _ _ hstep
    obtain ⟨hc', hpc', hsz'⟩ := enterFrame_send henter
    have hunit' : t'.frame.unit = u := by rw [← hunit]; simp [Frame.unit, hc, hc']
    refine ⟨hunit', ?_⟩
    rw [hunit] at hop
    have hnext := CodeUnit.DepthAt.next hd hop rfl (by simp [CodeUnit.effectAt, Opcode.stackEffect])
    simp only [CodeUnit.effectAt, Opcode.stackEffect, add_zero, Opcode.width,
      Opcode.operandLen] at hnext
    rwa [show t'.frame.pc = s.frame.pc + 1 by omega,
      show t'.frame.stack.size = s.frame.stack.size by omega]

/-- The units a straight walk describes keep their activations within their bound: every
activation met is within it, a step that fails ends within it and overflows only with room
left, so never on a push of its own, and a yielded frame always has room for the value sent
back. -/
theorem room (hu : u.Straight) (hs : s.Runs u) :
    s.frame.stack.size ≤ u.stackSize ∧
    (∀ k e t, Act.step k s = .error e t →
      t.frame.stack.size ≤ u.stackSize ∧ (e.IsOverflow → t.frame.stack.size < u.stackSize)) ∧
    (∀ k v t, Act.step k s = .ok (.exit (.yield v)) t →
      ∀ m w, ∃ t', enterFrame m t.frame (.send w) = .ok () t') := by
  obtain ⟨hunit, hd⟩ := hs.depthAt hu
  obtain ⟨op, hop, hj, hb, hroom⟩ := straight_at hu hunit hd
  have hunit' : ∀ t : Active, t.frame.code = s.frame.code → t.frame.unit = u := by
    intro t hc
    rw [← hunit]
    simp [Frame.unit, hc]
  refine ⟨by omega, fun k e t h => ?_, fun k v t h m w => ?_⟩
  · by_cases hy : op = .yield
    · subst hy
      obtain ⟨hc, hle, hov⟩ := (step_yield_room hop).error e t h (by rw [hunit]; omega)
      rw [hunit' t hc] at hov
      exact ⟨by omega, hov⟩
    · obtain ⟨hc, hle, hov⟩ := (step_room hj hb hy hop).error e t h (by rw [hunit]; omega)
      rw [hunit] at hle
      rw [hunit' t hc] at hov
      exact ⟨by omega, hov⟩
  · obtain rfl := yield_of_step hop h
    obtain ⟨hc, -, hsz⟩ := (step_yield_room hop).ok _ _ h
    have hlt : t.frame.stack.size < t.frame.unit.stackSize := by
      rw [hunit' t hc]
      omega
    exact ⟨_, push_of_lt w hlt⟩

end Active.Runs

end StackVm
