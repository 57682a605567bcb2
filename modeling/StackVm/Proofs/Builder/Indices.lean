import StackVm.Proofs.Builder.Pools
import StackVm.Proofs.Builder.Jumps

/-! Index bookkeeping of every client of the builder.  Each call that registers an entry
returns an index; the tables only grow, and an index stays where it was put, so in a unit whose
build succeeds every index a call returned addresses the entry that call registered
(`Call.Addressed`), and every load the builder emits pushes the value it was emitted for
(`Loads`).  A table that outgrows its sixteen-bit operands records `TooLarge`, so a unit whose
build succeeds has every table within its operands (`CodeUnit.Bounded`), provided the cells come
before the free variables, which share their space of indices.

The parameter count is kept apart: each `addParam` adds one modulo `65536`, with no check, so the
count of a built unit is the number of parameters declared modulo `65536`.

Main statement: `registered_entries_addressed`. -/

namespace StackVm

/-! ### Loads as the interpreter runs them -/

namespace Act

variable (k : Kit) {t : Active} {o : Nat}

theorem exec_loadSmallInt (hpc : t.frame.pc = o + 1) :
    exec k .loadSmallInt t = (do
      jumpTo (o + 2)
      push (.int (CodeUnit.signedByte (t.frame.unit.byteAt (o + 1))))
      pure .next : Act StepResult) t := by
  obtain ⟨m, f⟩ := t
  cases f
  dsimp only at hpc
  subst hpc
  rfl

theorem exec_loadInt (hpc : t.frame.pc = o + 1) :
    exec k .loadInt t = (do
      jumpTo (o + 3)
      push (.int ((t.frame.unit.ints[t.frame.unit.u16At (o + 1)]?).getD 0))
      pure .next : Act StepResult) t := by
  obtain ⟨m, f⟩ := t
  cases f
  dsimp only at hpc
  subst hpc
  rfl

theorem exec_loadConst (hpc : t.frame.pc = o + 1) :
    exec k .loadConst t = (do
      jumpTo (o + 3)
      push ((t.frame.unit.constants[t.frame.unit.u16At (o + 1)]?).getD .none)
      pure .next : Act StepResult) t := by
  obtain ⟨m, f⟩ := t
  cases f
  dsimp only at hpc
  subst hpc
  rfl

end Act

/-- The instruction at offset `o` of `u` loads `v`: the interpreter, run from the instruction's
first operand byte, pushes `v` and goes on past the instruction. -/
def Loads (u : CodeUnit) (o : Nat) (v : Value) : Prop :=
  ∃ op, Opcode.ofByte? (u.byteAt o) = some op ∧
    ∀ (k : Kit) (t : Active), t.frame.unit = u → t.frame.pc = o + 1 →
      Act.exec k op t = (do Act.jumpTo (o + op.width); Act.push v; pure .next : Act StepResult) t

theorem signedByte_of_small {v : Int} (h : -128 ≤ v ∧ v < 128) :
    CodeUnit.signedByte (v % 256).toNat.toUInt8.toNat = v := by
  have hb : (v % 256).toNat.toUInt8.toNat = (v % 256).toNat := by simp; omega
  rw [hb, CodeUnit.signedByte]
  split <;> omega

namespace Builder

/-! ### Calls by what they declare and register -/

/-- Whether a call declares a positional parameter. -/
def Call.isParam : Call → Bool
  | .addParam _ => true
  | _ => false

/-- Whether a call sets the varargs flag. -/
def Call.setsVarargs : Call → Bool
  | .addVarargs _ => true
  | .setFlags f => f.hasVarargs
  | _ => false

/-- Whether a call declares a cell. -/
def Call.isCellVar : Call → Bool
  | .addCellVar _ => true
  | _ => false

/-- Whether a call declares a free variable. -/
def Call.isFreeVar : Call → Bool
  | .addFreeVar _ => true
  | _ => false

/-- Whether a call declares a parameter, a cell or a free variable, or sets flags. -/
def Call.declares : Call → Bool
  | .setFlags _ | .addParam _ | .addVarargs _ | .addCellVar _ | .addFreeVar _ => true
  | _ => false

/-- Whether a call registers an entry in a pool or a table, alone or for a load it emits. -/
def Call.registers : Call → Bool
  | .addParam _ | .addVarargs _ | .addLocal _ | .addCellVar _ | .addFreeVar _ | .addName _
  | .addConst _ | .addInt _ | .addFloat _ | .addBigInt _ | .addStr _ | .addBytes _
  | .emitLoadInt _ | .emitLoadStr _ | .emitLoadConst _ => true
  | _ => false

/-- Cells come before free variables: no cell is declared after a free variable. -/
def CellsFirst (cs : List Call) : Prop :=
  cs.Pairwise fun c c' => c.isFreeVar = true → c'.isCellVar = false

/-- What a call registers, read in a unit `u`, for a call made on the builder `b`: the entry at
the index the call returned, and for a load the instruction at the offset it was emitted at.
Calls that register nothing address nothing. -/
def Call.Addressed (b : Builder) (u : CodeUnit) : Call → Prop
  | .addParam n => u.localNames[(b.addParam n).2]? = some n
  | .addVarargs n => u.localNames[(b.addVarargs n).2]? = some n
  | .addLocal n => u.localNames[(b.addLocal n).2]? = some n
  | .addCellVar n => (u.cellNames ++ u.freeNames)[(b.addCellVar n).2]? = some n
  | .addFreeVar n => (u.cellNames ++ u.freeNames)[(b.addFreeVar n).2]? = some n
  | .addName n => u.names[(b.addName n).2]? = some n
  | .addConst v => u.constants[(b.addConst v).2]? = some v
  | .addInt v => u.ints[(b.addInt v).2]? = some v
  | .addFloat v => ∃ f, u.floats[(b.addFloat v).2]? = some f ∧ f.toBits = v.toBits
  | .addBigInt v => u.bigInts[(b.addBigInt v).2]? = some v
  | .addStr v => u.strings[(b.addStr v).2]? = some v
  | .addBytes v => u.bytes[(b.addBytes v).2]? = some v
  | .emitLoadInt v => Loads u b.offset (.int v)
  | .emitLoadConst v => Loads u b.offset v
  | .emitLoadStr v =>
    Opcode.ofByte? (u.byteAt b.offset) = some .loadStr ∧ u.strings[u.u16At (b.offset + 1)]? = some v
  | _ => True

theorem Registers.entry {b b' : Builder} {what : String} {P : Prop} (h : Registers b b' what P)
    (hn : b'.error = none) : P := by
  rcases h with ⟨-, hP⟩ | he
  · exact hP
  · rw [hn] at he
    cases he

namespace Session

/-! ### What each call keeps -/

/-- The calls that neither declare nor register keep every table, the parameter count and the
flags. -/
theorem keeps_call (s : Session) {c : Call} (hd : c.declares = false) (hr : c.registers = false) :
    s.builder.Keeps (s.call c).builder := by
  cases c with
  | setLocation line => exact keeps_setLocation _ line
  | setStackDepth d => constructor <;> rfl
  | emit op => exact keeps_emitRaw _ op _ _
  | emitU8 op n => exact keeps_emitRaw _ op _ _
  | emitI8 op n => exact keeps_emitRaw _ op _ _
  | emitU16 op n => exact keeps_emitRaw _ op _ _
  | emitU16U8 op n extra => exact keeps_emitRaw _ op _ _
  | emitLoadLocal slot => exact keeps_emitLoadLocal _ slot
  | emitStoreLocal slot => exact keeps_emitStoreLocal _ slot
  | emitJump op => exact keeps_emitRaw _ op _ _
  | patchJump j =>
    cases hj : s.labels[j]? with
    | none =>
      rw [call_patchJump_none hj]
      exact .refl _
    | some l =>
      rw [call_patchJump_of hj]
      exact keeps_patchJump _ l
  | emitJumpBack target => exact keeps_emitJumpBack _ target
  | addHandler r => constructor <;> rfl
  | _ => cases hd <;> cases hr

theorem keepsDecls_call (s : Session) {c : Call} (hd : c.declares = false) :
    s.builder.KeepsDecls (s.call c).builder := by
  cases hr : c.registers
  · exact (s.keeps_call hd hr).decls
  cases c with
  | addLocal n => exact keepsDecls_addLocal _ n
  | addName n => exact keepsDecls_addName _ n
  | addConst v => exact keepsDecls_addConst _ v
  | addInt v => exact keepsDecls_addInt _ v
  | addFloat v => exact keepsDecls_addFloat _ v
  | addBigInt v => exact keepsDecls_addBigInt _ v
  | addStr v => exact keepsDecls_addStr _ v
  | addBytes v => exact keepsDecls_addBytes _ v
  | emitLoadInt v => exact keepsDecls_emitLoadInt _ v
  | emitLoadStr v => exact keepsDecls_emitLoadStr _ v
  | emitLoadConst v => exact keepsDecls_emitLoadConst _ v
  | _ => cases hd <;> cases hr

theorem argCount_call (s : Session) (c : Call) :
    (s.call c).builder.argCount =
      if c.isParam then (s.builder.argCount + 1) % 65536 else s.builder.argCount := by
  cases hd : c.declares
  · have hp : c.isParam = false := by cases c <;> first | rfl | cases hd
    rw [(s.keepsDecls_call hd).argCount, hp]
    rfl
  cases c with
  | setFlags f => rfl
  | addParam n => exact (addParam_decls _ n).1
  | addVarargs n => exact (addVarargs_decls _ n).1
  | addCellVar n => exact (keeps_addCellVar _ n).argCount
  | addFreeVar n => exact (addFreeVar_decls _ n).1
  | _ => cases hd

/-- The varargs flag, once set, stays; only the slot of surplus arguments and the flags that
hold it set it. -/
theorem hasVarargs_call (s : Session) (c : Call) :
    (s.call c).builder.flags.hasVarargs = (s.builder.flags.hasVarargs || c.setsVarargs) := by
  cases hd : c.declares
  · have hv : c.setsVarargs = false := by cases c <;> first | rfl | cases hd
    rw [(s.keepsDecls_call hd).flags, hv, Bool.or_false]
  cases c with
  | setFlags f => exact CodeFlags.hasVarargs_union _ _
  | addParam n =>
    show (s.builder.addParam n).1.flags.hasVarargs = (s.builder.flags.hasVarargs || false)
    rw [(addParam_decls _ n).2.1, Bool.or_false]
  | addVarargs n =>
    show (s.builder.addVarargs n).1.flags.hasVarargs = (s.builder.flags.hasVarargs || true)
    rw [(addVarargs_decls _ n).2.1, CodeFlags.hasVarargs_union]
    rfl
  | addCellVar n =>
    show (s.builder.addCellVar n).1.flags.hasVarargs = (s.builder.flags.hasVarargs || false)
    rw [(keeps_addCellVar _ n).flags, Bool.or_false]
  | addFreeVar n =>
    show (s.builder.addFreeVar n).1.flags.hasVarargs = (s.builder.flags.hasVarargs || false)
    rw [(addFreeVar_decls _ n).2.1, Bool.or_false]
  | _ => cases hd

theorem cellNames_call (s : Session) {c : Call} (hc : c.isCellVar = false) :
    (s.call c).builder.cellNames = s.builder.cellNames := by
  cases hd : c.declares
  · exact (s.keepsDecls_call hd).cellNames
  cases c with
  | setFlags f => rfl
  | addParam n => exact (addParam_decls _ n).2.2.1
  | addVarargs n => exact (addVarargs_decls _ n).2.2.1
  | addFreeVar n => exact (addFreeVar_decls _ n).2.2.1
  | _ => cases hd <;> cases hc

theorem freeNames_call (s : Session) {c : Call} (hc : c.isFreeVar = false) :
    (s.call c).builder.freeNames = s.builder.freeNames := by
  cases hd : c.declares
  · exact (s.keepsDecls_call hd).freeNames
  cases c with
  | setFlags f => rfl
  | addParam n => exact (addParam_decls _ n).2.2.2
  | addVarargs n => exact (addVarargs_decls _ n).2.2.2
  | addCellVar n => exact (keeps_addCellVar _ n).freeNames
  | _ => cases hd <;> cases hc

/-- Every call keeps the tables within their operands, unless it records an error; a cell
needs no free variable declared before it. -/
theorem fits_call (s : Session) (hs : s.builder.Fits) (c : Call)
    (hc : c.isCellVar = true → s.builder.freeNames.size = 0) : (s.call c).builder.Fits := by
  cases hd : c.declares
  · cases hr : c.registers
    · exact (s.keeps_call hd hr).fits_of_extends (s.extends_call c) hs
    cases c with
    | addLocal n => exact fits_addLocal _ hs n
    | addName n => exact fits_addName _ hs n
    | addConst v => exact fits_addConst _ hs v
    | addInt v => exact fits_addInt _ hs v
    | addFloat v => exact fits_addFloat _ hs v
    | addBigInt v => exact fits_addBigInt _ hs v
    | addStr v => exact fits_addStr _ hs v
    | addBytes v => exact fits_addBytes _ hs v
    | emitLoadInt v => exact fits_emitLoadInt _ hs v
    | emitLoadStr v => exact fits_emitLoadStr _ hs v
    | emitLoadConst v => exact fits_emitLoadConst _ hs v
    | _ => cases hd <;> cases hr
  cases c with
  | setFlags f =>
    intro hn
    have hB := hs hn
    exact ⟨hB.1, hB.2, hB.3, hB.4, hB.5, hB.6, hB.7, hB.8, hB.9⟩
  | addParam n => exact fits_addParam _ hs n
  | addVarargs n => exact fits_addVarargs _ hs n
  | addCellVar n => exact fits_addCellVar _ hs (hc rfl) n
  | addFreeVar n => exact fits_addFreeVar _ hs n
  | _ => cases hd

theorem depth_call (s : Session) (c : Call) :
    0 ≤ (s.call c).builder.depth ∨ (s.call c).builder.depth = s.builder.depth := by
  cases c with
  | setFlags f => exact .inr rfl
  | addParam n => exact .inr (depth_index _ _ _)
  | addVarargs n => exact .inr (depth_index _ _ _)
  | addLocal n => exact .inr (depth_addLocal _ n)
  | addCellVar n => exact .inr (depth_addCellVar _ n)
  | addFreeVar n => exact .inr (depth_index _ _ _)
  | addName n => exact .inr (depth_addName _ n)
  | addConst v => exact .inr (depth_index _ _ _)
  | addInt v => exact .inr (depth_addInt _ v)
  | addFloat v => exact .inr (depth_addFloat _ v)
  | addBigInt v => exact .inr (depth_index _ _ _)
  | addStr v => exact .inr (depth_addStr _ v)
  | addBytes v => exact .inr (depth_index _ _ _)
  | setLocation line =>
    refine .inr ?_
    show (s.builder.setLocation line).depth = _
    unfold setLocation
    dsimp only
    split
    · split
      · rfl
      · split <;> rfl
    · rfl
  | setStackDepth d => exact .inl (Int.natCast_nonneg d)
  | emit op => exact .inl (depth_adjust_nonneg _ _ _)
  | emitU8 op n => exact .inl (depth_adjust_nonneg _ _ _)
  | emitI8 op n => exact .inl (depth_adjust_nonneg _ _ _)
  | emitU16 op n => exact .inl (depth_adjust_nonneg _ _ _)
  | emitU16U8 op n extra => exact .inl (depth_adjust_nonneg _ _ _)
  | emitLoadInt v =>
    refine .inl ?_
    show 0 ≤ (s.builder.emitLoadInt v).depth
    unfold emitLoadInt
    split <;> exact depth_adjust_nonneg _ _ _
  | emitLoadLocal slot =>
    refine .inl ?_
    show 0 ≤ (s.builder.emitLoadLocal slot).depth
    unfold emitLoadLocal
    split <;> exact depth_adjust_nonneg _ _ _
  | emitStoreLocal slot =>
    refine .inl ?_
    show 0 ≤ (s.builder.emitStoreLocal slot).depth
    unfold emitStoreLocal
    split <;> exact depth_adjust_nonneg _ _ _
  | emitLoadStr v => exact .inl (depth_adjust_nonneg _ _ _)
  | emitLoadConst v => exact .inl (depth_adjust_nonneg _ _ _)
  | emitJump op => exact .inl (depth_adjust_nonneg _ _ _)
  | patchJump j =>
    refine .inr ?_
    cases hj : s.labels[j]? with
    | none => rw [call_patchJump_none hj]
    | some l =>
      rw [call_patchJump_of hj]
      show (s.builder.patchJump l).depth = _
      unfold patchJump
      dsimp only
      split
      · rfl
      · rw [fail_eq]
  | emitJumpBack target =>
    refine .inl ?_
    show 0 ≤ (s.builder.emitJumpBack target).depth
    unfold emitJumpBack
    dsimp only
    split <;> exact depth_adjust_nonneg _ _ _
  | addHandler r => exact .inr rfl

/-- A call that registers an entry records nothing, or `TooLarge` of a table, unless an error
was recorded before; for a load, the tracked depth must not be negative. -/
theorem registers_call (s : Session) (hd : 0 ≤ s.builder.depth) (ha : s.builder.argCount < 65536)
    {c : Call} (hc : c.registers = true) :
    ∃ what, ∃ P, Registers s.builder (s.call c).builder what P := by
  cases c with
  | addParam n => exact ⟨_, _, addParam_registers _ n⟩
  | addVarargs n => exact ⟨_, _, addVarargs_registers _ n⟩
  | addLocal n => exact ⟨_, _, addLocal_registers _ n⟩
  | addCellVar n => exact ⟨_, _, addCellVar_registers _ ha n⟩
  | addFreeVar n => exact ⟨_, _, addFreeVar_registers _ n⟩
  | addName n => exact ⟨_, _, addName_registers _ n⟩
  | addConst v => exact ⟨_, _, addConst_registers _ v⟩
  | addInt v => exact ⟨_, _, addInt_registers _ v⟩
  | addFloat v => exact ⟨_, _, addFloat_registers _ v⟩
  | addBigInt v => exact ⟨_, _, addBigInt_registers _ v⟩
  | addStr v => exact ⟨_, _, addStr_registers _ v⟩
  | addBytes v => exact ⟨_, _, addBytes_registers _ v⟩
  | emitLoadInt v => exact ⟨_, _, registers_emitLoadInt _ hd v⟩
  | emitLoadStr v => exact ⟨_, _, registers_emitLoadStr _ hd v⟩
  | emitLoadConst v => exact ⟨_, _, registers_emitLoadConst _ hd v⟩
  | _ => cases hc

/-! ### What runs keep -/

theorem argCount_run (s : Session) (ha : s.builder.argCount < 65536) (cs : List Call) :
    (s.run cs).builder.argCount = (s.builder.argCount + cs.countP Call.isParam) % 65536 := by
  induction cs generalizing s with
  | nil => simp [Nat.mod_eq_of_lt ha]
  | cons c cs ih =>
    have ha' : (s.call c).builder.argCount < 65536 := by
      rw [argCount_call]
      split <;> omega
    rw [run_cons, ih _ ha', argCount_call, List.countP_cons]
    cases hp : c.isParam
    · simp
    · simp
      omega

theorem depth_run (s : Session) (hd : 0 ≤ s.builder.depth) (cs : List Call) :
    0 ≤ (s.run cs).builder.depth := by
  induction cs generalizing s with
  | nil => exact hd
  | cons c cs ih =>
    refine ih _ ?_
    rcases s.depth_call c with h | h
    · exact h
    · exact h ▸ hd

theorem hasVarargs_run (s : Session) (cs : List Call) :
    (s.run cs).builder.flags.hasVarargs =
      (s.builder.flags.hasVarargs || cs.any Call.setsVarargs) := by
  induction cs generalizing s with
  | nil => simp
  | cons c cs ih => rw [run_cons, ih, hasVarargs_call, List.any_cons, Bool.or_assoc]

theorem cellNames_run (s : Session) {cs : List Call} (hcs : ∀ c ∈ cs, c.isCellVar = false) :
    (s.run cs).builder.cellNames = s.builder.cellNames := by
  induction cs generalizing s with
  | nil => rfl
  | cons c cs ih =>
    rw [run_cons, ih _ fun c' h => hcs c' (List.mem_cons_of_mem c h),
      cellNames_call _ (hcs c List.mem_cons_self)]

/-- With the cells first, a run keeps the tables within their operands unless it records an
error. -/
theorem fits_run (s : Session) (hs : s.builder.Fits) {cs : List Call} (hcs : CellsFirst cs)
    (hf : s.builder.freeNames.size = 0 ∨ ∀ c ∈ cs, c.isCellVar = false) :
    (s.run cs).builder.Fits := by
  induction cs generalizing s with
  | nil => exact hs
  | cons c cs ih =>
    obtain ⟨hhead, htail⟩ := List.pairwise_cons.1 hcs
    have hcell : c.isCellVar = true → s.builder.freeNames.size = 0 := fun hc =>
      hf.resolve_right fun h => by simp [h c List.mem_cons_self] at hc
    refine ih _ (s.fits_call hs c hcell) htail ?_
    cases hfv : c.isFreeVar
    · rcases hf with h | h
      · exact .inl (by rw [freeNames_call _ hfv, h])
      · exact .inr fun c' hc' => h c' (List.mem_cons_of_mem c hc')
    · exact .inr fun c' hc' => hhead c' hc' hfv

/-! ### Indices stay where they were put -/

theorem code_run_of_written (s : Session) (hs : s.LabelsApart) {c : Call} (hc : c.isJump = false)
    (post : List Call) {i : Nat} (hi₁ : s.builder.offset ≤ i) (hi₂ : i < (s.call c).builder.offset) :
    ((s.call c).run post).builder.code[i]? = (s.call c).builder.code[i]? := by
  refine byte_run_of_unlabelled (labelsApart_call hs c) hi₂ (fun l hl => ?_) post
  simp only [labels_call, hc, Bool.false_eq_true, if_false] at hl
  have := (hs.inCode l hl).2
  omega

/-- The bytes a call appended, unless it emitted a forward jump, are in every unit built after
further calls. -/
theorem byteAt_of_appended (s : Session) (hs : s.LabelsApart) {c : Call} (hc : c.isJump = false)
    {bs : List UInt8} (happ : (s.call c).builder.code = s.builder.code ++ bs) (post : List Call)
    (n j : Nat) (hj : j < bs.length) :
    (((s.call c).run post).builder.toUnit n).byteAt (s.builder.offset + j) = bs[j].toNat := by
  have ho := offset_eq_length s.builder
  have ho' := offset_eq_length (s.call c).builder
  rw [happ, List.length_append] at ho'
  rw [toUnit_byteAt, code_run_of_written s hs hc post (by omega) (by omega), happ,
    List.getElem?_append_right (by omega), ho, Nat.add_sub_cancel_left,
    List.getElem?_eq_getElem hj, Option.getD_some]

/-- An instruction with a sixteen-bit operand, emitted on a builder whose code is that of the
session, is read back with its opcode and its operand in every unit built after further calls. -/
theorem reads_u16 (s : Session) (hs : s.LabelsApart) {c : Call} (hc : c.isJump = false)
    {b₁ : Builder} {op : Opcode} {i : Nat} (hi : i < 65536) (hb₁ : b₁.code = s.builder.code)
    (he : (s.call c).builder = b₁.emitU16 op i) (post : List Call) (n : Nat) :
    Opcode.ofByte? ((((s.call c).run post).builder.toUnit n).byteAt s.builder.offset) = some op ∧
      (((s.call c).run post).builder.toUnit n).u16At (s.builder.offset + 1) = i := by
  have happ : (s.call c).builder.code =
      s.builder.code ++ [op.byte.toUInt8, (i % 256).toUInt8, (i / 256 % 256).toUInt8] := by
    rw [he, emitU16, emitRaw_code, hb₁]
    rfl
  have hbyte := byteAt_of_appended s hs hc happ post n
  have h₀ := hbyte 0 (by simp)
  have h₁ := hbyte 1 (by simp)
  have h₂ := hbyte 2 (by simp)
  rw [Nat.add_zero] at h₀
  refine ⟨by rw [h₀]; exact Opcode.ofByte?_byte _, ?_⟩
  rw [CodeUnit.u16At, h₁, show s.builder.offset + 1 + 1 = s.builder.offset + 2 by omega, h₂]
  simp
  omega

/-- A small integer is loaded from the byte after the opcode, any other from the pool of
integers. -/
theorem loads_emitLoadInt (s : Session) (hs : s.LabelsApart) (v : Int) (post : List Call) (n : Nat)
    (hn : ((s.call (.emitLoadInt v)).run post).builder.error = none) :
    Loads (((s.call (.emitLoadInt v)).run post).builder.toUnit n) s.builder.offset (.int v) := by
  have hj : Call.isJump (.emitLoadInt v) = false := rfl
  by_cases hv : -128 ≤ v ∧ v < 128
  · have happ : (s.call (.emitLoadInt v)).builder.code =
        s.builder.code ++ [Opcode.loadSmallInt.byte.toUInt8, (v % 256).toNat.toUInt8] := by
      show (s.builder.emitLoadInt v).code = _
      rw [emitLoadInt, if_pos hv, emitI8, emitRaw_code]
      rfl
    have hbyte := byteAt_of_appended s hs hj happ post n
    refine ⟨.loadSmallInt, ?_, fun k t ht hpc => ?_⟩
    · have h₀ := hbyte 0 (by simp)
      rw [Nat.add_zero] at h₀
      rw [h₀]
      exact Opcode.ofByte?_byte _
    · rw [Act.exec_loadSmallInt k hpc, ht, hbyte 1 (by simp)]
      simp only [List.getElem_cons_succ, List.getElem_cons_zero, signedByte_of_small hv]
      rfl
  · have he : (s.call (.emitLoadInt v)).builder =
        (s.builder.addInt v).1.emitU16 .loadInt (s.builder.addInt v).2 := by
      show s.builder.emitLoadInt v = _
      rw [emitLoadInt, if_neg hv]
    obtain ⟨hop, hw⟩ := reads_u16 s hs hj (addInt_snd_lt _ v) (code_addInt _ v) he post n
    have hg : (s.builder.addInt v).1.Extends (s.call (.emitLoadInt v)).builder := by
      rw [he]
      exact (grows_emitRaw _ _ _ _).toExtends
    have hx := hg.trans ((s.call (.emitLoadInt v)).extends_run post)
    have hentry := Array.getElem?_of_prefix hx.ints
      ((addInt_registers _ v).entry (error_none_of_extends hx hn))
    refine ⟨.loadInt, hop, fun k t ht hpc => ?_⟩
    rw [Act.exec_loadInt k hpc, ht, hw]
    show _ = (do Act.jumpTo (s.builder.offset + 3); Act.push (.int v); pure .next : Act StepResult) t
    rw [show ((((s.call (.emitLoadInt v)).run post).builder.toUnit n).ints[(s.builder.addInt v).2]?) =
      some v from hentry]
    rfl

theorem loads_emitLoadConst (s : Session) (hs : s.LabelsApart) (v : Value) (post : List Call)
    (n : Nat) (hn : ((s.call (.emitLoadConst v)).run post).builder.error = none) :
    Loads (((s.call (.emitLoadConst v)).run post).builder.toUnit n) s.builder.offset v := by
  have he : (s.call (.emitLoadConst v)).builder =
      (s.builder.addConst v).1.emitU16 .loadConst (s.builder.addConst v).2 := rfl
  obtain ⟨hop, hw⟩ := reads_u16 s hs rfl (addConst_snd_lt _ v) (code_addConst _ v) he post n
  have hg : (s.builder.addConst v).1.Extends (s.call (.emitLoadConst v)).builder := by
    rw [he]
    exact (grows_emitRaw _ _ _ _).toExtends
  have hx := hg.trans ((s.call (.emitLoadConst v)).extends_run post)
  have hentry := Array.getElem?_of_prefix hx.constants
    ((addConst_registers _ v).entry (error_none_of_extends hx hn))
  refine ⟨.loadConst, hop, fun k t ht hpc => ?_⟩
  rw [Act.exec_loadConst k hpc, ht, hw]
  show _ = (do Act.jumpTo (s.builder.offset + 3); Act.push v; pure .next : Act StepResult) t
  rw [show ((((s.call (.emitLoadConst v)).run post).builder.toUnit n).constants[
    (s.builder.addConst v).2]?) = some v from hentry]
  rfl

theorem loadStr_of_emitLoadStr (s : Session) (hs : s.LabelsApart) (v : String) (post : List Call)
    (n : Nat) (hn : ((s.call (.emitLoadStr v)).run post).builder.error = none) :
    Opcode.ofByte? ((((s.call (.emitLoadStr v)).run post).builder.toUnit n).byteAt
        s.builder.offset) = some .loadStr ∧
      (((s.call (.emitLoadStr v)).run post).builder.toUnit n).strings[
        (((s.call (.emitLoadStr v)).run post).builder.toUnit n).u16At (s.builder.offset + 1)]? =
        some v := by
  have he : (s.call (.emitLoadStr v)).builder =
      (s.builder.addStr v).1.emitU16 .loadStr (s.builder.addStr v).2 := rfl
  obtain ⟨hop, hw⟩ := reads_u16 s hs rfl (addStr_snd_lt _ v) (code_addStr _ v) he post n
  have hg : (s.builder.addStr v).1.Extends (s.call (.emitLoadStr v)).builder := by
    rw [he]
    exact (grows_emitRaw _ _ _ _).toExtends
  have hx := hg.trans ((s.call (.emitLoadStr v)).extends_run post)
  rw [hw]
  exact ⟨hop, Array.getElem?_of_prefix hx.strings
    ((addStr_registers _ v).entry (error_none_of_extends hx hn))⟩

/-- A call addresses what it registered in every unit built after further calls; a free
variable needs no cell declared after it. -/
theorem addressed_of_build (s : Session) (hs : s.LabelsApart) (ha : s.builder.argCount < 65536)
    (c : Call) (post : List Call) (hpost : c.isFreeVar = true → ∀ c' ∈ post, c'.isCellVar = false)
    {isCode : Value → Bool} {u : CodeUnit}
    (hu : ((s.call c).run post).builder.build isCode = .ok u) :
    c.Addressed s.builder u := by
  obtain ⟨hn, -, rfl, -⟩ := build_ok hu
  have hx := (s.call c).extends_run post
  have hn' := error_none_of_extends hx hn
  cases c with
  | addParam n =>
    exact Array.getElem?_of_prefix hx.localNames ((addParam_registers _ n).entry hn')
  | addVarargs n =>
    exact Array.getElem?_of_prefix hx.localNames ((addVarargs_registers _ n).entry hn')
  | addLocal n =>
    exact Array.getElem?_of_prefix hx.localNames ((addLocal_registers _ n).entry hn')
  | addCellVar n =>
    have h := Array.getElem?_of_prefix hx.cellNames ((addCellVar_registers _ ha n).entry hn')
    exact (Array.getElem?_append_left (Array.getElem?_eq_some_iff.1 h).1).trans h
  | addFreeVar n =>
    have hc := cellNames_run (s.call (.addFreeVar n)) (hpost rfl)
    refine Array.getElem?_of_prefix ?_ ((addFreeVar_registers _ n).entry hn')
    rw [Array.toList_append, Array.toList_append]
    show _ <+: (((s.call _).run post).builder.cellNames.toList ++ _)
    rw [hc]
    exact List.prefix_append_right_inj _ |>.2 hx.freeNames
  | addName n => exact Array.getElem?_of_prefix hx.names ((addName_registers _ n).entry hn')
  | addConst v =>
    exact Array.getElem?_of_prefix hx.constants ((addConst_registers _ v).entry hn')
  | addInt v => exact Array.getElem?_of_prefix hx.ints ((addInt_registers _ v).entry hn')
  | addFloat v =>
    obtain ⟨f, hf, hbits⟩ := (addFloat_registers _ v).entry hn'
    exact ⟨f, Array.getElem?_of_prefix hx.floats hf, hbits⟩
  | addBigInt v =>
    exact Array.getElem?_of_prefix hx.bigInts ((addBigInt_registers _ v).entry hn')
  | addStr v => exact Array.getElem?_of_prefix hx.strings ((addStr_registers _ v).entry hn')
  | addBytes v => exact Array.getElem?_of_prefix hx.bytes ((addBytes_registers _ v).entry hn')
  | emitLoadInt v => exact loads_emitLoadInt s hs v post _ hn
  | emitLoadConst v => exact loads_emitLoadConst s hs v post _ hn
  | emitLoadStr v => exact loadStr_of_emitLoadStr s hs v post _ hn
  | _ => trivial

/-! ### Every client -/

theorem argCount_lt_run (name : String) (cs : List Call) :
    ((new name).run cs).builder.argCount < 65536 := by
  rw [argCount_run (new name) (Nat.zero_lt_succ _)]
  exact Nat.mod_lt _ (Nat.zero_lt_succ _)

/-- For every sequence of calls on a fresh builder whose build succeeds: the unit counts the
parameters declared, modulo `65536`; it has the varargs flag exactly when a call set it; with
the cells before the free variables, every table fits its sixteen-bit operands; and every call
addresses in the unit what it registered, at the index it returned (a free variable when no
cell is declared after it), and every load it emitted loads its value.  Every call that
registers an entry records nothing, or `TooLarge` of a table unless an error was recorded
before. -/
theorem registered_entries_addressed (name : String) (isCode : Value → Bool) (cs : List Call) :
    (∀ u, ((new name).run cs).builder.build isCode = .ok u →
      u.argCount = cs.countP Call.isParam % 65536 ∧
      (u.flags.hasVarargs = true ↔ ∃ c ∈ cs, c.setsVarargs = true) ∧
      (CellsFirst cs → u.Bounded) ∧
      ∀ pre c post, cs = pre ++ c :: post →
        (c.isFreeVar = true → ∀ c' ∈ post, c'.isCellVar = false) →
        c.Addressed ((new name).run pre).builder u) ∧
    ∀ pre c, c.registers = true →
      (((new name).run pre).call c).builder.error = ((new name).run pre).builder.error ∨
        ∃ what, (((new name).run pre).call c).builder.error =
          some (((new name).run pre).builder.error.getD (.tooLarge what)) := by
  refine ⟨fun u hu => ?_, fun pre c hc => ?_⟩
  · obtain ⟨hn, -, hu', -⟩ := build_ok hu
    refine ⟨?_, ?_, fun hcs => ?_, fun pre c post hcs hpost => ?_⟩
    · rw [hu']
      show ((new name).run cs).builder.argCount = _
      rw [argCount_run (new name) (Nat.zero_lt_succ _) cs,
        show (new name).builder.argCount = 0 from rfl, Nat.zero_add]
    · rw [hu']
      show ((new name).run cs).builder.flags.hasVarargs = true ↔ _
      rw [hasVarargs_run]
      simp [new, Builder.new, CodeFlags.hasVarargs_eq, CodeFlags.empty]
    · have hB := fits_run (new name) (fits_new name) hcs (.inl rfl) hn
      rw [hu']
      exact ⟨hB.1, hB.2, hB.3, hB.4, hB.5, hB.6, hB.7, hB.8, hB.9⟩
    · subst hcs
      rw [run_append, run_cons] at hu
      exact addressed_of_build _ (labelsApart_run (labelsApart_new name) pre)
        (argCount_lt_run name pre) c post hpost hu
  · obtain ⟨what, P, hr⟩ := registers_call _ (depth_run (new name) (Int.le_refl 0) pre)
      (argCount_lt_run name pre) hc
    rcases hr with ⟨he, -⟩ | he
    · exact .inl he
    · exact .inr ⟨what, he⟩

/-- A parameter, the slot of surplus arguments, and the return of a constant: the unit counts
one parameter, has the varargs flag, finds the slot at index 1, and loads the constant from its
pool. -/
theorem varargs_unit_loads_constant :
    ∃ u, ((new "f").run [.addParam "x", .addVarargs "rest", .emitLoadConst (.int 1000),
        .emit .returnValue]).builder.build (fun _ => false) = .ok u ∧
      u.argCount = 1 ∧ u.flags.hasVarargs = true ∧ u.localNames[1]? = some "rest" ∧
      Loads u 0 (.int 1000) := by
  have h : ((new "f").run [.addParam "x", .addVarargs "rest", .emitLoadConst (.int 1000),
      .emit .returnValue]).builder.build (fun _ => false) = .ok (((new "f").run
        [.addParam "x", .addVarargs "rest", .emitLoadConst (.int 1000),
          .emit .returnValue]).builder.toUnit 1) := by
    refine build_eq_ok rfl (by decide) ?_
    have hh : ((new "f").run [.addParam "x", .addVarargs "rest", .emitLoadConst (.int 1000),
        .emit .returnValue]).builder.handlers = #[] := rfl
    simp only [toUnit, hh, List.mergeSort_nil, Array.toList_empty]
    rfl
  obtain ⟨hcount, hvar, -, haddr⟩ :=
    (registered_entries_addressed "f" (fun _ => false)
      [.addParam "x", .addVarargs "rest", .emitLoadConst (.int 1000), .emit .returnValue]).1 _ h
  refine ⟨_, h, hcount.trans rfl, hvar.2 ⟨.addVarargs "rest", by simp, rfl⟩,
    haddr [.addParam "x"] (.addVarargs "rest") [.emitLoadConst (.int 1000), .emit .returnValue]
      rfl (fun h => absurd h Bool.false_ne_true),
    haddr [.addParam "x", .addVarargs "rest"] (.emitLoadConst (.int 1000)) [.emit .returnValue] rfl
      (fun h => absurd h Bool.false_ne_true)⟩

end Session

end Builder

end StackVm
