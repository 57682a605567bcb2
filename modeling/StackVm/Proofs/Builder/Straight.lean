import StackVm.Proofs.Builder.Indices
import StackVm.Proofs.Activation.Walk

/-! Straight-line code from the builder.  A session of calls with no jump, no declared depth and
no handler, whose every instruction is emitted with the operand bytes its opcode takes, builds
units the builder's depth tracking describes: each call either emits nothing, keeping the code
and the tracked depths, or appends one instruction whose operand bytes, read back in the unit,
give the stack effect the builder added (`Builder.Appends`).  So the walk of the unit
(`CodeUnit.DepthAt`) follows the builder from instruction to instruction, and a unit that builds
is straight: every instruction the walk reaches has room under the bound, which is the deepest
depth the builder tracked.  Hence no push of such a unit ever fails at run time.

The tracking adds only the net effect of an instruction, and an instruction takes its values
off the stack before it checks that there are enough of them.  So an instruction that needs
more values than the depth before it, but has a net effect that keeps the depth at zero or
above, builds and then fails on an empty stack: `Dup` first thing in a unit. -/

namespace StackVm

namespace Opcode

theorem stackEffect_of_operandLen_zero {op : Opcode} (h : op.operandLen = 0) (n : Int) (e : Nat) :
    op.stackEffect n e = op.stackEffect 0 0 := by
  cases op
  case callArgs m => fin_cases m <;> rfl
  all_goals simp_all [operandLen, stackEffect]

theorem stackEffect_of_operandLen_ne_three {op : Opcode} (h : op.operandLen ≠ 3) (n : Int)
    (e : Nat) : op.stackEffect n e = op.stackEffect n 0 := by
  cases op
  case callArgs m => fin_cases m <;> rfl
  all_goals simp_all [operandLen, stackEffect]

end Opcode

/-- The calls of a straight-line session: no jump, no declared depth and no handler range, and
every instruction emitted with the operand bytes its opcode takes; a signed byte only for an
opcode whose stack effect does not read its operand. -/
def Builder.Call.Straight : Builder.Call → Prop
  | .setStackDepth _ | .emitJump _ | .patchJump _ | .emitJumpBack _ | .addHandler _ => False
  | .emit op => op.operandLen = 0 ∧ op.isRelativeJump = false ∧ op ≠ .jumpBackward
  | .emitU8 op _ => op.operandLen = 1 ∧ op.isRelativeJump = false ∧ op ≠ .jumpBackward
  | .emitI8 op _ => op.operandLen = 1 ∧ (∀ n, op.stackEffect n 0 = op.stackEffect 0 0) ∧
      op.isRelativeJump = false ∧ op ≠ .jumpBackward
  | .emitU16 op _ => op.operandLen = 2 ∧ op.isRelativeJump = false ∧ op ≠ .jumpBackward
  | .emitU16U8 op _ _ => op.operandLen = 3 ∧ op.isRelativeJump = false ∧ op ≠ .jumpBackward
  | _ => True

/-- The operand bytes `operands` of an instruction `op` give the stack effect `effect`, in any
unit that holds them after the opcode. -/
def Opcode.Reads (op : Opcode) (operands : List Nat) (effect : Int) : Prop :=
  ∀ (u : CodeUnit) (o : Nat), (∀ j (hj : j < operands.length), u.byteAt (o + 1 + j) = operands[j]) →
    u.effectAt op o = effect

namespace Opcode

variable {op : Opcode}

theorem reads_emit (h : op.operandLen = 0) : op.Reads [] (op.stackEffect 0 0) := by
  intro u o _
  exact stackEffect_of_operandLen_zero h _ _

theorem reads_emitU8 (h : op.operandLen = 1) (n : Nat) :
    op.Reads [n % 256] (op.stackEffect (n % 256) 0) := by
  intro u o hb
  have h₁ := hb 0 (by simp)
  simp only [Nat.add_zero, List.getElem_cons_zero] at h₁
  rw [CodeUnit.effectAt, CodeUnit.operandAt, if_pos h, h₁]
  exact stackEffect_of_operandLen_ne_three (by omega) _ _

theorem reads_emitI8 (h : op.operandLen = 1) (hE : ∀ n, op.stackEffect n 0 = op.stackEffect 0 0)
    (n : Int) : op.Reads [(n % 256).toNat] (op.stackEffect 0 0) := by
  intro u o _
  rw [CodeUnit.effectAt, stackEffect_of_operandLen_ne_three (by omega), hE]

theorem reads_emitU16 (h : op.operandLen = 2) (n : Nat) :
    op.Reads (Builder.wordBytes n) (op.stackEffect (n % 65536) 0) := by
  intro u o hb
  have h₁ := hb 0 (by simp [Builder.wordBytes])
  have h₂ := hb 1 (by simp [Builder.wordBytes])
  simp only [Builder.wordBytes, Nat.add_zero, List.getElem_cons_zero,
    List.getElem_cons_succ] at h₁ h₂
  have hw : u.u16At (o + 1) = n % 65536 := by
    rw [CodeUnit.u16At, h₁, h₂]
    omega
  rw [CodeUnit.effectAt, CodeUnit.operandAt, if_neg (by omega), hw]
  exact stackEffect_of_operandLen_ne_three (by omega) _ _

theorem reads_emitU16U8 (h : op.operandLen = 3) (n extra : Nat) :
    op.Reads (Builder.wordBytes n ++ [extra % 256]) (op.stackEffect (n % 65536) (extra % 256)) := by
  intro u o hb
  have h₁ := hb 0 (by simp [Builder.wordBytes])
  have h₂ := hb 1 (by simp [Builder.wordBytes])
  have h₃ := hb 2 (by simp [Builder.wordBytes])
  simp only [Builder.wordBytes, Nat.add_zero, List.cons_append, List.nil_append,
    List.getElem_cons_zero, List.getElem_cons_succ] at h₁ h₂ h₃
  have hw : u.u16At (o + 1) = n % 65536 := by
    rw [CodeUnit.u16At, h₁, h₂]
    omega
  rw [CodeUnit.effectAt, CodeUnit.operandAt, if_neg (by omega), hw,
    show o + 3 = o + 1 + 2 by omega, h₃]
  rfl

end Opcode

namespace Builder

variable {b b₁ b₂ : Builder} {op : Opcode} {E : Int}

/-- What a call that emits nothing keeps of the builder: the code and both tracked depths. -/
structure Still (b b' : Builder) : Prop where
  code : b'.code = b.code
  depth : b'.depth = b.depth
  maxDepth : b'.maxDepth = b.maxDepth

/-- `b'` is `b` with one instruction `op` appended.  In any unit built from a builder whose code
extends `b'`, the instruction decodes to `op` and reads the stack effect `effect` back from its
operand bytes; that effect moved the tracked depth, unless an error was recorded. -/
structure Appends (b b' : Builder) (op : Opcode) (effect : Int) : Prop where
  offset : b'.offset = b.offset + op.width
  code : b.code <+: b'.code
  reads : ∀ (b₁ : Builder) (n : Nat), b'.code <+: b₁.code →
    Opcode.ofByte? ((b₁.toUnit n).byteAt b.offset) = some op ∧
      (b₁.toUnit n).effectAt op b.offset = effect
  depth : b'.error = none → 0 ≤ b.depth + effect ∧ b'.depth = b.depth + effect
  maxDepth : b'.maxDepth = max b.maxDepth b'.depth

theorem still_addInt (v : Int) : b.Still (b.addInt v).1 := by
  unfold addInt index fail
  dsimp only
  repeat' split
  all_goals exact ⟨rfl, rfl, rfl⟩

theorem still_addStr (v : String) : b.Still (b.addStr v).1 := by
  unfold addStr index fail
  dsimp only
  repeat' split
  all_goals exact ⟨rfl, rfl, rfl⟩

theorem still_addConst (v : Value) : b.Still (b.addConst v).1 := by
  unfold addConst index fail
  dsimp only
  repeat' split
  all_goals exact ⟨rfl, rfl, rfl⟩

theorem Still.appends (h₁ : b.Still b₁) (h₂ : b₁.Appends b₂ op E) : b.Appends b₂ op E where
  offset := by rw [h₂.offset, offset_eq_length, offset_eq_length, h₁.code]
  code := h₁.code ▸ h₂.code
  reads b' n h := by
    rw [offset_eq_length, ← h₁.code, ← offset_eq_length]
    exact h₂.reads b' n h
  depth h := by
    rw [← h₁.depth]
    exact h₂.depth h
  maxDepth := by rw [h₂.maxDepth, h₁.maxDepth]

theorem toUnit_byteAt_of_longer {bs : List UInt8} (h : bs <+: b₁.code) (n : Nat) {i : Nat}
    (hi : i < bs.length) : (b₁.toUnit n).byteAt i = bs[i].toNat := by
  obtain ⟨t, ht⟩ := h
  rw [toUnit_byteAt, ← ht, List.getElem?_append_left hi, List.getElem?_eq_getElem hi,
    Option.getD_some]

theorem toUnit_byteAt_of_le (n : Nat) {i : Nat} (hi : b.code.length ≤ i) :
    (b.toUnit n).byteAt i = 0 := by
  rw [toUnit_byteAt, List.getElem?_eq_none hi]
  rfl

theorem adjust_depth (offset : Nat) (effect : Int) (h : (b.adjust offset effect).error = none) :
    0 ≤ b.depth + effect ∧ (b.adjust offset effect).depth = b.depth + effect := by
  unfold adjust at h ⊢
  dsimp only at h ⊢
  split at h
  · simp [fail_eq] at h
  · rename_i hd
    rw [if_neg hd]
    exact ⟨by omega, rfl⟩

theorem adjust_maxDepth (offset : Nat) (effect : Int) :
    (b.adjust offset effect).maxDepth = max b.maxDepth (b.adjust offset effect).depth := by
  unfold adjust
  dsimp only
  split <;> simp [fail_eq]

theorem emitRaw_appends {operands : List Nat} (hlen : operands.length = op.operandLen)
    (hbytes : ∀ x ∈ operands, x < 256) (hreads : op.Reads operands E) :
    b.Appends (b.emitRaw op operands E) op E := by
  have hcode := emitRaw_code b op operands E
  refine ⟨?_, ?_, fun b' n hb' => ⟨?_, ?_⟩, adjust_depth _ _, adjust_maxDepth _ _⟩
  · simp [offset_eq_length, hcode, Opcode.width, hlen]
    omega
  · rw [hcode]
    exact List.prefix_append _ _
  · have hi : b.offset < (b.emitRaw op operands E).code.length := by
      rw [hcode, offset_eq_length]
      simp
    rw [toUnit_byteAt_of_longer hb' n hi]
    simp only [hcode, offset_eq_length, List.getElem_append_right (Nat.le_refl _), Nat.sub_self,
      List.map_cons, List.getElem_cons_zero]
    exact Opcode.ofByte?_byte op
  · refine hreads _ _ fun j hj => ?_
    have hi : b.offset + 1 + j < (b.emitRaw op operands E).code.length := by
      rw [hcode, offset_eq_length]
      simp
      omega
    rw [toUnit_byteAt_of_longer hb' n hi]
    simp only [hcode, offset_eq_length]
    rw [List.getElem_append_right (by omega)]
    simp only [show b.code.length + 1 + j - b.code.length = j + 1 by omega, List.map_cons,
      List.getElem_cons_succ, List.getElem_map]
    have := hbytes _ (List.getElem_mem hj)
    simp
    omega

end Builder

namespace Builder.Session

variable {s : Session} {c : Call}

theorem wordBytes_lt (n : Nat) : ∀ x ∈ wordBytes n, x < 256 := by
  simp only [wordBytes, List.mem_cons, List.not_mem_nil, or_false]
  rintro x (rfl | rfl) <;> omega

theorem wordBytes_length (n : Nat) : (wordBytes n).length = 2 := rfl

/-- A straight call emits nothing, keeping the code and the tracked depths, or appends one
instruction that jumps nowhere. -/
theorem straight_call (s : Session) (hc : c.Straight) :
    s.builder.Still (s.call c).builder ∨ ∃ op E, op.isRelativeJump = false ∧
      op ≠ .jumpBackward ∧ s.builder.Appends (s.call c).builder op E := by
  cases c
  case setStackDepth | emitJump | patchJump | emitJumpBack | addHandler => exact hc.elim
  case emit op =>
    obtain ⟨h0, hj, hb⟩ := hc
    exact .inr ⟨op, _, hj, hb, emitRaw_appends (by simp [h0]) (by simp) (Opcode.reads_emit h0)⟩
  case emitU8 op n =>
    obtain ⟨h1, hj, hb⟩ := hc
    exact .inr ⟨op, _, hj, hb, emitRaw_appends (by simp [h1])
      (by simp only [List.mem_singleton]; omega) (Opcode.reads_emitU8 h1 n)⟩
  case emitI8 op n =>
    obtain ⟨h1, hE, hj, hb⟩ := hc
    exact .inr ⟨op, _, hj, hb, emitRaw_appends (by simp [h1])
      (by simp only [List.mem_singleton]; omega) (Opcode.reads_emitI8 h1 hE n)⟩
  case emitU16 op n =>
    obtain ⟨h2, hj, hb⟩ := hc
    exact .inr ⟨op, _, hj, hb, emitRaw_appends (by rw [wordBytes_length, h2]) (wordBytes_lt n)
      (Opcode.reads_emitU16 h2 n)⟩
  case emitU16U8 op n extra =>
    obtain ⟨h3, hj, hb⟩ := hc
    refine .inr ⟨op, _, hj, hb, emitRaw_appends (by simp [wordBytes, h3]) ?_
      (Opcode.reads_emitU16U8 h3 n extra)⟩
    simp only [List.mem_append, List.mem_singleton]
    rintro x (hx | rfl)
    · exact wordBytes_lt n x hx
    · omega
  case emitLoadInt v =>
    refine .inr ?_
    show ∃ op E, _ ∧ _ ∧ s.builder.Appends (s.builder.emitLoadInt v) op E
    unfold emitLoadInt
    split
    · exact ⟨.loadSmallInt, _, rfl, (by decide), emitRaw_appends rfl (by simp only [List.mem_singleton]; omega)
        (Opcode.reads_emitI8 rfl (fun _ => rfl) v)⟩
    · exact ⟨.loadInt, _, rfl, (by decide), Still.appends (still_addInt _)
        (emitRaw_appends rfl (wordBytes_lt _) (Opcode.reads_emitU16 rfl _))⟩
  case emitLoadLocal slot =>
    refine .inr ?_
    show ∃ op E, _ ∧ _ ∧ s.builder.Appends (s.builder.emitLoadLocal slot) op E
    unfold emitLoadLocal
    split
    · exact ⟨.loadLocal, _, rfl, (by decide), emitRaw_appends rfl
        (by simp only [List.mem_singleton]; omega) (Opcode.reads_emitU8 rfl _)⟩
    · exact ⟨.loadLocalW, _, rfl, (by decide), emitRaw_appends rfl (wordBytes_lt _)
        (Opcode.reads_emitU16 rfl _)⟩
  case emitStoreLocal slot =>
    refine .inr ?_
    show ∃ op E, _ ∧ _ ∧ s.builder.Appends (s.builder.emitStoreLocal slot) op E
    unfold emitStoreLocal
    split
    · exact ⟨.storeLocal, _, rfl, (by decide), emitRaw_appends rfl
        (by simp only [List.mem_singleton]; omega) (Opcode.reads_emitU8 rfl _)⟩
    · exact ⟨.storeLocalW, _, rfl, (by decide), emitRaw_appends rfl (wordBytes_lt _)
        (Opcode.reads_emitU16 rfl _)⟩
  case emitLoadStr v =>
    exact .inr ⟨.loadStr, _, rfl, (by decide), Still.appends (still_addStr _)
      (emitRaw_appends rfl (wordBytes_lt _) (Opcode.reads_emitU16 rfl _))⟩
  case emitLoadConst v =>
    exact .inr ⟨.loadConst, _, rfl, (by decide), Still.appends (still_addConst _)
      (emitRaw_appends rfl (wordBytes_lt _) (Opcode.reads_emitU16 rfl _))⟩
  all_goals
    left
    simp only [call, setFlags, addParam, addVarargs, addLocal, addCellVar, addFreeVar, addName,
      addConst, addInt, addFloat, addBigInt, addStr, addBytes, setLocation, index, fail]
    repeat' split
    all_goals exact ⟨rfl, rfl, rfl⟩

/-- Along straight calls the code only grows, the deepest tracked depth only grows, and the
tracked depth stays within it. -/
theorem straight_run (s : Session) (hs : s.builder.depth ≤ s.builder.maxDepth) {cs : List Call}
    (hcs : ∀ c ∈ cs, c.Straight) :
    s.builder.code <+: (s.run cs).builder.code ∧ s.builder.maxDepth ≤ (s.run cs).builder.maxDepth ∧
      (s.run cs).builder.depth ≤ (s.run cs).builder.maxDepth := by
  induction cs generalizing s with
  | nil => exact ⟨List.prefix_refl _, le_rfl, hs⟩
  | cons c cs ih =>
    have hcall : s.builder.code <+: (s.call c).builder.code ∧
        s.builder.maxDepth ≤ (s.call c).builder.maxDepth ∧
        (s.call c).builder.depth ≤ (s.call c).builder.maxDepth := by
      rcases straight_call s (hcs c List.mem_cons_self) with h | ⟨op, E, -, -, h⟩
      · rw [h.code, h.maxDepth, h.depth]
        exact ⟨List.prefix_refl _, le_rfl, hs⟩
      · rw [h.maxDepth]
        exact ⟨h.code, le_max_left _ _, le_max_right _ _⟩
    obtain ⟨h₁, h₂, h₃⟩ := hcall
    obtain ⟨h₄, h₅, h₆⟩ := ih (s.call c) h₃ fun c' hc' => hcs c' (List.mem_cons_of_mem c hc')
    exact ⟨h₁.trans h₄, h₂.trans h₅, h₆⟩

/-- Where the builder stood between two calls of the session `cs` from `s`: at offset `pc` with
tracked depth `d`; or past the end of the code the session leaves, at most as deep as it ends. -/
def Stood (s : Session) (cs : List Call) (pc : Nat) (d : Int) : Prop :=
  (∃ cs₁ cs₂, cs = cs₁ ++ cs₂ ∧ (s.run cs₁).builder.offset = pc ∧
    (s.run cs₁).builder.depth = d) ∨
  ((s.run cs).builder.offset ≤ pc ∧ d ≤ (s.run cs).builder.depth)

theorem past_end (b : Builder) (n : Nat) {pc : Nat} (hpc : b.offset ≤ pc) :
    Opcode.ofByte? ((b.toUnit n).byteAt pc) = some .pop ∧ (b.toUnit n).effectAt .pop pc = -1 := by
  rw [toUnit_byteAt_of_le n (by rw [← offset_eq_length]; exact hpc)]
  exact ⟨rfl, rfl⟩

/-- Where the builder stood, the unit built has an instruction that jumps nowhere and has room
for its effect under the deepest tracked depth; and the builder stood where the walk goes from
it.  Between two calls, the instruction is the one the next call that emits appends; past the
end of the code, it is the `Pop` read there. -/
theorem stood_next {s : Session} (hs : s.builder.depth ≤ s.builder.maxDepth) {cs : List Call}
    (hcs : ∀ c ∈ cs, c.Straight) (herr : (s.run cs).builder.error = none) (n : Nat) {pc : Nat}
    {d : Int} (h : s.Stood cs pc d) :
    ∃ op, Opcode.ofByte? (((s.run cs).builder.toUnit n).byteAt pc) = some op ∧
      op.isRelativeJump = false ∧ op ≠ .jumpBackward ∧ d ≤ (s.run cs).builder.maxDepth ∧
      d + ((s.run cs).builder.toUnit n).effectAt op pc ≤ (s.run cs).builder.maxDepth ∧
      (0 ≤ d + ((s.run cs).builder.toUnit n).effectAt op pc →
        s.Stood cs (pc + op.width) (d + ((s.run cs).builder.toUnit n).effectAt op pc)) := by
  have hfinal := (straight_run s hs hcs).2.2
  have hpast : ∀ pc d, (s.run cs).builder.offset ≤ pc → d ≤ (s.run cs).builder.depth →
      ∃ op, Opcode.ofByte? (((s.run cs).builder.toUnit n).byteAt pc) = some op ∧
        op.isRelativeJump = false ∧ op ≠ .jumpBackward ∧ d ≤ (s.run cs).builder.maxDepth ∧
        d + ((s.run cs).builder.toUnit n).effectAt op pc ≤ (s.run cs).builder.maxDepth ∧
        (0 ≤ d + ((s.run cs).builder.toUnit n).effectAt op pc →
          s.Stood cs (pc + op.width) (d + ((s.run cs).builder.toUnit n).effectAt op pc)) := by
    intro pc d hpc hd
    obtain ⟨hop, heff⟩ := past_end _ n hpc
    refine ⟨.pop, hop, rfl, (by decide), by omega, by omega, fun _ => .inr ⟨?_, ?_⟩⟩
    · exact Nat.le_succ_of_le hpc
    · rw [heff]
      omega
  rcases h with ⟨cs₁, cs₂, hcs₁, hpc, hd⟩ | ⟨hpc, hd⟩
  · induction cs₂ generalizing cs₁ with
    | nil =>
      rw [List.append_nil] at hcs₁
      subst hcs₁
      exact hpast pc d hpc.le hd.ge
    | cons c rest ih =>
      have hrun : s.run cs = ((s.run cs₁).call c).run rest := by
        rw [hcs₁, run_append, run_cons]
      have hcs' : cs = (cs₁ ++ [c]) ++ rest := by
        rw [hcs₁, List.append_assoc, List.singleton_append]
      have hstraight : ∀ c' ∈ cs₁, c'.Straight := fun c' h => hcs c' (by rw [hcs₁]; simp [h])
      have hrest : ∀ c' ∈ rest, c'.Straight := fun c' h => hcs c' (by rw [hcs₁]; simp [h])
      have hs₁ := straight_run s hs hstraight
      rcases straight_call (s.run cs₁) (hcs c (by rw [hcs₁]; simp)) with hst | ⟨op, E, hj, hb, happ⟩
      · refine ih (cs₁ ++ [c]) hcs' ?_ ?_
        · rw [run_append, run_cons, run_nil, offset_eq_length, hst.code, ← offset_eq_length, hpc]
        · rw [run_append, run_cons, run_nil, hst.depth, hd]
      · have hafter := straight_run ((s.run cs₁).call c)
          (by rw [happ.maxDepth]; exact le_max_right _ _) hrest
        rw [← hrun] at hafter
        obtain ⟨hdec, heff⟩ := happ.reads (s.run cs).builder n hafter.1
        rw [hpc] at hdec heff
        have herr' : ((s.run cs₁).call c).builder.error = none := by
          cases he : ((s.run cs₁).call c).builder.error with
          | none => rfl
          | some e =>
            have := (extends_run ((s.run cs₁).call c) rest).error e he
            rw [← hrun, herr] at this
            cases this
        obtain ⟨hnn, hdepth⟩ := happ.depth herr'
        refine ⟨op, hdec, hj, hb, ?_, ?_, fun _ => .inl ⟨cs₁ ++ [c], rest, hcs', ?_, ?_⟩⟩
        · have := hs₁.2.2
          have := hafter.2.1
          rw [happ.maxDepth] at this
          omega
        · rw [heff, ← hd, ← hdepth]
          have := hafter.2.1
          rw [happ.maxDepth] at this
          omega
        · rw [run_append, run_cons, run_nil, happ.offset, hpc]
        · rw [run_append, run_cons, run_nil, hdepth, hd, heff]
  · exact hpast pc d hpc hd

theorem stood_of_depthAt {s : Session} (hs : s.builder.depth ≤ s.builder.maxDepth)
    (h0 : s.builder.offset = 0) (hd0 : s.builder.depth = 0) {cs : List Call}
    (hcs : ∀ c ∈ cs, c.Straight) (herr : (s.run cs).builder.error = none) (n : Nat) {pc : Nat}
    {d : Int} (h : ((s.run cs).builder.toUnit n).DepthAt pc d) : s.Stood cs pc d := by
  induction h with
  | start => exact .inl ⟨[], cs, rfl, h0, hd0⟩
  | next _ hop _ hnn ih =>
    obtain ⟨op', hop', -, -, -, -, hnext⟩ := stood_next hs hcs herr n ih
    rw [hop] at hop'
    cases hop'
    exact hnext hnn

/-- A straight session whose build succeeds gives a straight unit: the walk of the unit reaches
only instructions that jump nowhere and have room for their effect under its bound. -/
theorem straight_of_build (name : String) {cs : List Call} (hcs : ∀ c ∈ cs, c.Straight)
    {isCode : Value → Bool} {u : CodeUnit} (hb : ((new name).run cs).builder.build isCode = .ok u) :
    u.Straight := by
  obtain ⟨herr, -, rfl, -⟩ := build_ok hb
  have hs : (new name).builder.depth ≤ (new name).builder.maxDepth := le_rfl
  intro pc d hd
  obtain ⟨op, hop, hj, hback, hd₁, hd₂, -⟩ :=
    stood_next hs hcs herr _ (stood_of_depthAt hs rfl rfl hcs herr _ hd)
  have hmax : 0 ≤ ((new name).run cs).builder.maxDepth := (straight_run _ hs hcs).2.1
  refine ⟨op, hop, hj, hback, ?_⟩
  show d + max 0 _ ≤ ((((new name).run cs).builder.maxDepth.toNat : Nat) : Int)
  rw [Int.toNat_of_nonneg hmax]
  omega

/-- A unit built from a straight session keeps every activation of its own within its bound:
the operand stack of every activation met stays at or under the bound the builder computed, a
step that fails ends within it and overflows only with room left, so never on a push of the
unit's own, and a yielded frame always has room for the value sent back.  The builder tracks only
net effects, so this says nothing of underflow: `dup_first_underflows` builds a unit that pops
an empty stack. -/
theorem straight_session_keeps_bound (name : String) {cs : List Call}
    (hcs : ∀ c ∈ cs, c.Straight) {isCode : Value → Bool} {u : CodeUnit}
    (hb : ((new name).run cs).builder.build isCode = .ok u) {s : Active} (hs : s.Runs u) :
    s.frame.stack.size ≤ u.stackSize ∧
    (∀ k e t, Act.step k s = .error e t →
      t.frame.stack.size ≤ u.stackSize ∧ (e.IsOverflow → t.frame.stack.size < u.stackSize)) ∧
    (∀ k v t, Act.step k s = .ok (.exit (.yield v)) t →
      ∀ m w, ∃ t', Act.enterFrame m t.frame (.send w) = .ok () t') :=
  hs.room (straight_of_build name hcs hb)

/-- A straight session that copies a value before anything is pushed. -/
def dupFirst : List Call := [.emit .dup, .emit .pop, .emit .returnNone]

/-- The unit `dupFirst` builds, with the bound of one slot its net effects give. -/
def dupFirstUnit : CodeUnit := ((new "f").run dupFirst).builder.toUnit 1

/-- A fresh activation of `dupFirstUnit`. -/
def dupFirstActive : Active :=
  ⟨{}, { (default : Frame) with code := { (default : CodeObj) with unit := dupFirstUnit } }⟩

/-- `Dup`, `Pop`, `ReturnNone` builds with a bound of one slot, since the net effect of `Dup` is
one push, and its fresh activation is within the bound; but its first step pops an empty stack. -/
theorem dup_first_underflows :
    ((new "f").run dupFirst).builder.build (fun _ => false) = .ok dupFirstUnit ∧
    dupFirstUnit.stackSize = 1 ∧
    (∀ k e t, Act.step k dupFirstActive = .error e t →
      t.frame.stack.size ≤ dupFirstUnit.stackSize ∧
      (e.IsOverflow → t.frame.stack.size < dupFirstUnit.stackSize)) ∧
    ∃ t, Act.step Kit.exhausted dupFirstActive = .error (.internal (.stackUnderflow "f" 0)) t := by
  have hb : ((new "f").run dupFirst).builder.build (fun _ => false) = .ok dupFirstUnit := by
    have hh : ((new "f").run dupFirst).builder.handlers = #[] := rfl
    refine (build_eq_ok rfl (by decide) ?_).trans rfl
    simp only [toUnit, hh, Array.toList_empty, List.mergeSort_nil]
    rfl
  have hcs : ∀ c ∈ dupFirst, c.Straight := by
    intro c hc
    simp only [dupFirst, List.mem_cons, List.not_mem_nil, or_false] at hc
    rcases hc with rfl | rfl | rfl <;> exact ⟨rfl, rfl, by decide⟩
  exact ⟨hb, rfl, (straight_session_keeps_bound "f" hcs hb (.start rfl rfl rfl)).2.1, _, rfl⟩

end Builder.Session

end StackVm
