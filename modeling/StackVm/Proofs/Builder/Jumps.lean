import StackVm.Proofs.Builder.Session
import StackVm.Proofs.Loop.Interpreted

/-! Jumps as the builder writes them and as the code is read.  A forward jump carries a signed
sixteen-bit distance measured from its own end, written by the patch once the code has reached
its target; the back-edge `jumpBackward` carries an unsigned sixteen-bit distance measured back
from its own start.  Three readers decode them: the check of a unit
(`CodeUnit.checkOperands`), the interpreter (`Act.nextSignedWord` and `Act.jumpBy`, and
`Act.backEdge`) and the loop compiler (`CompiledLoop.decodeAt`).

Main statements: `forward_jump_lands` and `backward_jump_lands`.  For every sequence of calls on
a fresh builder whose build succeeds, the three readers take a jump to the offset it was made
for.  When the distance does not fit, the build fails, with the distance error unless an
earlier call had recorded another: the builder reports its first error only
(`jump_distance_masked`). -/

namespace StackVm

/-! ### Two-byte operands -/

namespace Builder

variable (b : Builder)

theorem toUnit_u16At {n i w : Nat} (hw : w < 65536) (h₀ : b.code[i]? = some (w % 256).toUInt8)
    (h₁ : b.code[i + 1]? = some (w / 256).toUInt8) : (b.toUnit n).u16At i = w := by
  have hlo : (w % 256).toUInt8.toNat = w % 256 := by simp
  have hhi : (w / 256).toUInt8.toNat = w / 256 := by simp; omega
  simp only [CodeUnit.u16At, toUnit_byteAt, h₀, h₁, Option.getD_some, hlo, hhi]
  omega

theorem toUnit_i16At {n i w : Nat} (hw : w < 32768) (h₀ : b.code[i]? = some (w % 256).toUInt8)
    (h₁ : b.code[i + 1]? = some (w / 256).toUInt8) : (b.toUnit n).i16At i = w := by
  simp [CodeUnit.i16At, b.toUnit_u16At (by omega) h₀ h₁, hw]

/-! ### What the jump calls write -/

theorem emitJump_code (op : Opcode) :
    (b.emitJump op).1.code = b.code ++ [op.byte.toUInt8, 0, 0] := by
  simp [emitJump, emitRaw_code]

/-- A patch within reach writes the distance from the end of its jump to the current offset,
low byte first, and records nothing. -/
theorem patchJump_near (label : Nat) (hl : label + 2 ≤ b.offset)
    (hd : b.offset < label + 2 + 32768) :
    (b.patchJump label).error = b.error ∧
      (b.patchJump label).code[label]? = some ((b.offset - (label + 2)) % 256).toUInt8 ∧
      (b.patchJump label).code[label + 1]? = some ((b.offset - (label + 2)) / 256).toUInt8 := by
  have hfit : -32768 ≤ (b.offset : Int) - (label + 2) ∧ (b.offset : Int) - (label + 2) < 32768 := by
    omega
  have hw : (((b.offset : Int) - (label + 2)) % 65536).toNat = b.offset - (label + 2) := by omega
  unfold patchJump
  dsimp only
  rw [if_pos hfit]
  dsimp only
  rw [hw]
  have hsize : label + 2 ≤ b.bytecode.size := hl
  refine ⟨rfl, ?_, ?_⟩ <;> simp [code, toList_set!, List.getElem?_set] <;> omega

theorem patchJump_far (label : Nat) (hd : label + 2 + 32768 ≤ b.offset) :
    (b.patchJump label).error = some (b.error.getD (.tooLarge "jump distance")) := by
  have hfit : ¬(-32768 ≤ (b.offset : Int) - (label + 2) ∧ (b.offset : Int) - (label + 2) < 32768) := by
    omega
  simp only [patchJump, hfit, if_false, fail_eq]

theorem emitJumpBack_code_near {target : Nat} (hd : b.offset - target < 65536) :
    (b.emitJumpBack target).code =
      b.code ++ [Opcode.jumpBackward.byte.toUInt8, ((b.offset - target) % 256).toUInt8,
        ((b.offset - target) / 256).toUInt8] := by
  have hhi : ((b.offset - target) / 256 % 256).toUInt8 = ((b.offset - target) / 256).toUInt8 := by
    rw [Nat.mod_eq_of_lt (by omega)]
  simp [emitJumpBack, hd, emitU16, emitRaw_code, wordBytes, hhi]

theorem emitJumpBack_far {target : Nat} (hd : 65536 ≤ b.offset - target) :
    (b.emitJumpBack target).error = some (b.error.getD (.tooLarge "jump distance")) := by
  have hfail : (b.fail (.tooLarge "jump distance")).error =
      some (b.error.getD (.tooLarge "jump distance")) := by
    rw [fail_eq]
  have hnot : ¬b.offset - target < 65536 := by omega
  simp only [emitJumpBack, hnot, if_false]
  exact ((grows_emitRaw _ _ _ _).toExtends.error _ hfail)

end Builder

/-! ### How the code is read -/

namespace CodeUnit

variable (u : CodeUnit) (isCode : Value → Bool) (isStart : Nat → Bool) (o : Nat)

theorem checkOperands_relative {op : Opcode} (hop : op.isRelativeJump = true) :
    u.checkOperands isCode isStart o op = u.checkTarget isStart o (o + 3 + u.i16At (o + 1)) := by
  cases op <;> simp only [Opcode.isRelativeJump, Bool.false_eq_true] at hop <;> rfl

theorem checkOperands_jumpBackward :
    u.checkOperands isCode isStart o .jumpBackward = u.checkTarget isStart o (o - u.u16At (o + 1)) :=
  rfl

end CodeUnit

namespace CompiledLoop

variable (u : CodeUnit) (fast : Bool) (o : Nat)

/-- The loop compiler takes a forward jump's distance from the end of the jump, for the jumps
it compiles. -/
theorem decodeAt_relative {op : Opcode} (hop : op.isRelativeJump = true)
    (ht : 0 ≤ (o + 3 : Int) + u.i16At (o + 1)) :
    (decodeAt u fast o op).map Prod.snd = .ok (some ((o + 3 : Int) + u.i16At (o + 1)).toNat) ∨
      decodeAt u fast o op = .error (.unsupportedOpcode op) := by
  have hpos : ¬(o : Int) + 3 + u.i16At (o + 1) < 0 := by omega
  cases op <;> (try cases hop) <;> first
    | exact .inr rfl
    | exact .inl (by simp [decodeAt, Opcode.width, Opcode.operandLen, hpos, Except.map])

theorem decodeAt_jumpBackward (hd : u.u16At (o + 1) ≤ o) :
    (decodeAt u fast o .jumpBackward).map Prod.snd = .ok (some (o - u.u16At (o + 1))) := by
  simp [decodeAt, Nat.not_lt.2 hd, Except.map]

end CompiledLoop

namespace Act

/-- What the interpreter does with the operand of a jump once it has read the opcode: a back-edge
goes back by its distance from the start of the jump, any other jump moves by its distance from
the end of the jump. -/
def takeJump (op : Opcode) : Act Unit :=
  if op = .jumpBackward then nextWord >>= backEdge else nextSignedWord >>= jumpBy

/-- The interpreter reads a forward jump's distance after the opcode and moves by it from the
end of the jump. -/
theorem relativeJump_lands {t : Active} {o : Nat} (hpc : t.frame.pc = o + 1) :
    (nextSignedWord >>= jumpBy) t =
      jumpTo ((o + 3 : Int) + t.frame.unit.i16At (o + 1)).toNat t := by
  obtain ⟨m, f⟩ := t
  cases f
  dsimp only at hpc
  subst hpc
  rfl

/-- With loops never compiled, the interpreter reads a back-edge's distance after the opcode and
goes back by it from the start of the jump. -/
theorem backEdge_lands {t : Active} {o : Nat} (hpc : t.frame.pc = o + 1) (hi : t.frame.instrPc = o)
    (hd : t.frame.unit.u16At (o + 1) ≤ o) (ha : t.machine.config.osrThreshold = none) :
    (nextWord >>= backEdge) t = jumpTo (o - t.frame.unit.u16At (o + 1)) t := by
  obtain ⟨m, f⟩ := t
  cases f
  dsimp only at hpc hi hd ha
  subst hpc hi
  exact backEdge_of_noThreshold hd ha

end Act

/-- The three readers of a unit read the jump `op` at offset `o` as a jump to `T`: the opcode
is there, the check of the unit checks `T`, the loop compiler, where it compiles the jump,
resolves it to `T`, and the interpreter, with loops not compiled where `op` is a back-edge,
moves to `T`. -/
structure ReadsJump (u : CodeUnit) (isCode : Value → Bool) (op : Opcode) (o T : Nat) : Prop where
  opcode : Opcode.ofByte? (u.byteAt o) = some op
  checked : ∀ isStart, u.checkOperands isCode isStart o op = u.checkTarget isStart o T
  compiled : ∀ fast, (CompiledLoop.decodeAt u fast o op).map Prod.snd = .ok (some T) ∨
    CompiledLoop.decodeAt u fast o op = .error (.unsupportedOpcode op)
  interpreted : ∀ t : Active, t.frame.unit = u → t.frame.pc = o + 1 → t.frame.instrPc = o →
    (op = .jumpBackward → t.machine.config.osrThreshold = none) →
      Act.takeJump op t = Act.jumpTo T t

/-! ### Jumps of every client -/

namespace Builder.Session

/-- For every sequence of calls on a fresh builder: a forward jump emitted after the calls `pre`
and last patched once the calls `mid` have brought the code to offset `T` is read as a jump to
`T` by the check of the unit, by the interpreter and by the loop compiler, whenever the build
succeeds.  When the distance from the end of the jump to `T` does not fit in sixteen signed
bits, the build fails with the first error recorded before the patch, or else with the distance
error. -/
theorem forward_jump_lands (name : String) (pre mid post : List Call) {op : Opcode}
    (hop : op.isRelativeJump = true) (hpost : .patchJump (pre.countP Call.isJump) ∉ post)
    (isCode : Value → Bool) :
    let s := (new name).run pre
    let s₁ := (s.call (.emitJump op)).run mid
    let b := ((s₁.call (.patchJump (pre.countP Call.isJump))).run post).builder
    let o := s.builder.offset
    let T := s₁.builder.offset
    (∀ u, b.build isCode = .ok u → ReadsJump u isCode op o T) ∧
    (o + 3 + 32768 ≤ T →
      b.build isCode = .error (s₁.builder.error.getD (.tooLarge "jump distance"))) := by
  intro s s₁ b o T
  let k := pre.countP Call.isJump
  let s' := s.call (.emitJump op)
  let s₂ := s₁.call (.patchJump k)
  have hs : s.LabelsApart := labelsApart_run (labelsApart_new name) pre
  have hs' : s'.LabelsApart := labelsApart_call hs _
  have hk : s'.labels[k]? = some (o + 1) := by
    have hsize : s.labels.size = k := (labels_size_run (new name) pre).trans (Nat.zero_add _)
    show (s.labels.push (o + 1))[k]? = _
    rw [← hsize, Array.getElem?_push_size]
  have hk₁ : s₁.labels[k]? = some (o + 1) := labels_getElem?_run hk mid
  have hs₂ : s₂.LabelsApart := labelsApart_call (labelsApart_run hs' mid) _
  have hs₂b : s₂.builder = s₁.builder.patchJump (o + 1) :=
    congrArg Session.builder (call_patchJump_of hk₁)
  have hb : b = (s₂.run post).builder := rfl
  have hcode' : s'.builder.code = s.builder.code ++ [op.byte.toUInt8, 0, 0] :=
    s.builder.emitJump_code op
  have hlen : o = s.builder.code.length := s.builder.offset_eq_length
  have hoff' : s'.builder.offset = o + 3 := by
    rw [offset_eq_length, hcode', List.length_append, ← hlen]
    rfl
  have hT : o + 3 ≤ T := hoff' ▸ (s'.extends_run mid).offset
  have hopByte : b.code[o]? = some op.byte.toUInt8 := by
    have hb' : b = (s'.run (mid ++ .patchJump k :: post)).builder := by rw [run_append]; rfl
    have hfree : ∀ l ∈ s'.labels, o ≠ l ∧ o ≠ l + 1 := by
      intro l hl
      rcases Array.mem_push.1 hl with hl | rfl
      · have := hs.inCode l hl
        omega
      · omega
    rw [hb', byte_run_of_unlabelled hs' (by omega) hfree, hcode',
      List.getElem?_append_right (by omega), ← hlen, Nat.sub_self]
    rfl
  refine ⟨fun u hu => ?_, fun hfar => ?_⟩
  · obtain ⟨herr, -, rfl, -⟩ := build_ok hu
    have hnear : T < o + 3 + 32768 := by
      refine Nat.lt_of_not_le fun hfar => ?_
      have h₂ : s₂.builder.error = some (s₁.builder.error.getD (.tooLarge "jump distance")) := by
        rw [hs₂b]
        exact s₁.builder.patchJump_far _ (by omega)
      rw [hb, (s₂.extends_run post).error _ h₂] at herr
      cases herr
    obtain ⟨-, h₀, h₁⟩ := s₁.builder.patchJump_near (o + 1) (by omega) (by omega)
    have hd : T - (o + 1 + 2) = T - (o + 3) := rfl
    rw [← hs₂b] at h₀ h₁
    have hop₀ : b.code[o + 1]? = some ((T - (o + 3)) % 256).toUInt8 := by
      rw [hb, jumpByte_run hs₂ (labels_getElem?_call hk₁ _) hpost (by omega), h₀]
    have hop₁ : b.code[o + 1 + 1]? = some ((T - (o + 3)) / 256).toUInt8 := by
      rw [hb, jumpByte_run hs₂ (labels_getElem?_call hk₁ _) hpost (by omega), h₁]
    have hdist : (b.toUnit b.maxDepth.toNat).i16At (o + 1) = ((T - (o + 3) : Nat) : Int) :=
      b.toUnit_i16At (by omega) hop₀ hop₁
    have hlands : (o + 3 : Int) + (b.toUnit b.maxDepth.toNat).i16At (o + 1) = T := by
      rw [hdist]
      omega
    have hback : op ≠ .jumpBackward := by
      rintro rfl
      cases hop
    refine ⟨?_, fun isStart => ?_, fun fast => ?_, fun t hu hpc _ _ => ?_⟩
    · rw [toUnit_byteAt, hopByte, Option.getD_some]
      exact Opcode.ofByte?_byte op
    · rw [CodeUnit.checkOperands_relative _ _ _ _ hop, hlands]
    · have := CompiledLoop.decodeAt_relative (b.toUnit b.maxDepth.toNat) fast o hop (by omega)
      rwa [hlands] at this
    · rw [Act.takeJump, if_neg hback, Act.relativeJump_lands hpc, hu, hlands]
      rfl
  · have h₂ : s₂.builder.error = some (s₁.builder.error.getD (.tooLarge "jump distance")) := by
      rw [hs₂b]
      exact s₁.builder.patchJump_far _ (by omega)
    exact build_of_error ((s₂.extends_run post).error _ h₂) isCode

/-- For every sequence of calls on a fresh builder: a back-edge to an earlier offset `T`, emitted
after the calls `pre`, is read as a jump to `T` by the check of the unit, by the interpreter and
by the loop compiler, whenever the build succeeds.  When the distance back to `T` does not fit
in sixteen bits, the build fails with the first error recorded before the back-edge, or else
with the distance error. -/
theorem backward_jump_lands (name : String) (pre post : List Call) {T : Nat}
    (hT : T ≤ ((new name).run pre).builder.offset) (isCode : Value → Bool) :
    let s := (new name).run pre
    let b := ((s.call (.emitJumpBack T)).run post).builder
    let o := s.builder.offset
    (∀ u, b.build isCode = .ok u → ReadsJump u isCode .jumpBackward o T) ∧
    (65536 ≤ o - T →
      b.build isCode = .error (s.builder.error.getD (.tooLarge "jump distance"))) := by
  intro s b o
  have hTo : T ≤ o := hT
  let s' := s.call (.emitJumpBack T)
  have hs : s.LabelsApart := labelsApart_run (labelsApart_new name) pre
  have hs' : s'.LabelsApart := labelsApart_call hs _
  have hb : b = (s'.run post).builder := rfl
  refine ⟨fun u hu => ?_, fun hfar => ?_⟩
  · obtain ⟨herr, -, rfl, -⟩ := build_ok hu
    have hnear : o - T < 65536 := by
      refine Nat.lt_of_not_le fun hfar => ?_
      rw [hb, (s'.extends_run post).error _ (s.builder.emitJumpBack_far hfar)] at herr
      cases herr
    have hcode' := s.builder.emitJumpBack_code_near hnear
    have hlen : o = s.builder.code.length := s.builder.offset_eq_length
    have hkeep : ∀ i, o ≤ i → i < o + 3 → b.code[i]? = s'.builder.code[i]? := by
      intro i hi₁ hi₂
      have hoff' : s'.builder.offset = o + 3 := by
        show (s.builder.emitJumpBack T).offset = _
        rw [offset_eq_length, hcode', List.length_append, ← hlen]
        rfl
      refine byte_run_of_unlabelled hs' (by omega) (fun l hl => ?_) post
      have := hs.inCode l (by simpa [s', labels_call, Call.isJump] using hl)
      omega
    have hbyte : ∀ j (x : UInt8), [Opcode.jumpBackward.byte.toUInt8, ((o - T) % 256).toUInt8,
        ((o - T) / 256).toUInt8][j]? = some x → b.code[o + j]? = some x := by
      intro j x hx
      have hj : j < 3 := by
        have := (List.getElem?_eq_some_iff.1 hx).1
        simpa using this
      rw [hkeep (o + j) (by omega) (by omega)]
      show (s.builder.emitJumpBack T).code[o + j]? = _
      rw [hcode', List.getElem?_append_right (by omega), ← hlen, Nat.add_sub_cancel_left]
      exact hx
    have hdist : (b.toUnit b.maxDepth.toNat).u16At (o + 1) = o - T :=
      b.toUnit_u16At hnear (hbyte 1 _ rfl) (hbyte 2 _ rfl)
    refine ⟨?_, fun isStart => ?_, fun fast => .inl ?_, fun t hu hpc hi ha => ?_⟩
    · have h₀ := hbyte 0 _ rfl
      rw [Nat.add_zero] at h₀
      rw [toUnit_byteAt, h₀, Option.getD_some]
      exact Opcode.ofByte?_byte _
    · rw [CodeUnit.checkOperands_jumpBackward, hdist]
      congr 1
      omega
    · rw [CompiledLoop.decodeAt_jumpBackward _ _ _ (by omega), hdist]
      congr 3
      omega
    · rw [Act.takeJump, if_pos rfl, Act.backEdge_lands hpc hi (by rw [hu, hdist]; omega) (ha rfl),
        hu, hdist]
      congr 1
      omega
  · exact build_of_error ((s'.extends_run post).error _ (s.builder.emitJumpBack_far hfar)) isCode

/-- Every jump a client emits is read as a jump to the offset it was made for, whenever the
build succeeds: a forward jump to the offset the code had reached when it was last patched, a
back-edge to the earlier offset it was emitted for.  A distance that does not fit its sixteen
bits fails the build, with the first error recorded, which is the distance error unless an
earlier call recorded another. -/
theorem emitted_jumps_land (name : String) (isCode : Value → Bool) :
    (∀ (pre mid post : List Call) (op : Opcode), op.isRelativeJump = true →
      .patchJump (pre.countP Call.isJump) ∉ post →
      let s := (new name).run pre
      let s₁ := (s.call (.emitJump op)).run mid
      let b := ((s₁.call (.patchJump (pre.countP Call.isJump))).run post).builder
      (∀ u, b.build isCode = .ok u → ReadsJump u isCode op s.builder.offset s₁.builder.offset) ∧
      (s.builder.offset + 3 + 32768 ≤ s₁.builder.offset →
        b.build isCode = .error (s₁.builder.error.getD (.tooLarge "jump distance")))) ∧
    (∀ (pre post : List Call) (T : Nat), T ≤ ((new name).run pre).builder.offset →
      let s := (new name).run pre
      let b := ((s.call (.emitJumpBack T)).run post).builder
      (∀ u, b.build isCode = .ok u → ReadsJump u isCode .jumpBackward s.builder.offset T) ∧
      (65536 ≤ s.builder.offset - T →
        b.build isCode = .error (s.builder.error.getD (.tooLarge "jump distance")))) :=
  ⟨fun pre mid post _ hop hpost => forward_jump_lands name pre mid post hop hpost isCode,
    fun pre post _ hT => backward_jump_lands name pre post hT isCode⟩

/-- A jump over one `nop` lands at offset 4, and a back-edge after one `nop` lands at offset 0. -/
theorem jumps_over_nop_land :
    (∃ u, ((new "f").run [.emitJump .jump, .emit .nop, .patchJump 0, .emit .returnNone]).builder.build
        (fun _ => false) = .ok u ∧ ReadsJump u (fun _ => false) .jump 0 4) ∧
    (∃ u, ((new "f").run [.emit .nop, .emitJumpBack 0, .emit .returnNone]).builder.build
        (fun _ => false) = .ok u ∧ ReadsJump u (fun _ => false) .jumpBackward 1 0) := by
  obtain ⟨hfwd, -⟩ := (emitted_jumps_land "f" (fun _ => false)).1 [] [.emit .nop]
    [.emit .returnNone] .jump rfl (by simp)
  obtain ⟨hback, -⟩ := (emitted_jumps_land "f" (fun _ => false)).2 [.emit .nop]
    [.emit .returnNone] 0 (Nat.zero_le _)
  have h₁ : ((new "f").run [.emitJump .jump, .emit .nop, .patchJump 0, .emit .returnNone]).builder.build
      (fun _ => false) = .ok (((new "f").run
        [.emitJump .jump, .emit .nop, .patchJump 0, .emit .returnNone]).builder.toUnit 0) := by
    refine build_eq_ok rfl (by decide) ?_
    have hh : ((new "f").run
        [.emitJump .jump, .emit .nop, .patchJump 0, .emit .returnNone]).builder.handlers = #[] := rfl
    simp only [toUnit, hh, List.mergeSort_nil, Array.toList_empty]
    rfl
  have h₂ : ((new "f").run [.emit .nop, .emitJumpBack 0, .emit .returnNone]).builder.build
      (fun _ => false) = .ok (((new "f").run
        [.emit .nop, .emitJumpBack 0, .emit .returnNone]).builder.toUnit 0) := by
    refine build_eq_ok rfl (by decide) ?_
    have hh : ((new "f").run [.emit .nop, .emitJumpBack 0, .emit .returnNone]).builder.handlers =
        #[] := rfl
    simp only [toUnit, hh, List.mergeSort_nil, Array.toList_empty]
    rfl
  exact ⟨⟨_, h₁, hfwd _ h₁⟩, ⟨_, h₂, hback _ h₂⟩⟩

theorem offset_run_emits (s : Session) (op : Opcode) (n : Nat) :
    (s.run (List.replicate n (.emit op))).builder.offset = s.builder.offset + n := by
  induction n generalizing s with
  | zero => rfl
  | succ n ih =>
    rw [List.replicate_succ, run_cons, ih]
    have h : (s.call (.emit op)).builder.offset = s.builder.offset + 1 := by
      show (s.builder.emitRaw op [] _).offset = _
      simp [offset_eq_length, emitRaw_code]
    omega

/-- A `pop` on the empty stack, then a jump over 32768 `nop`s: the distance does not fit, and
the build fails with the underflow the `pop` recorded, not with the distance error. -/
theorem jump_distance_masked :
    ((new "f").run [.emit .pop]).builder.offset + 3 + 32768 ≤
        ((((new "f").run [.emit .pop]).call (.emitJump .jump)).run
          (List.replicate 32768 (.emit .nop))).builder.offset ∧
      ((new "f").run ([.emit .pop, .emitJump .jump] ++ List.replicate 32768 (.emit .nop) ++
        [.patchJump 0, .emit .returnNone])).builder.build (fun _ => false) =
        .error (.stackUnderflow 0) := by
  refine ⟨?_, ?_⟩
  · have hpre : ((new "f").run [.emit .pop]).builder.offset = 1 := rfl
    have hjump : (((new "f").run [.emit .pop]).call (.emitJump .jump)).builder.offset = 4 := rfl
    have := offset_run_emits (((new "f").run [.emit .pop]).call (.emitJump .jump)) .nop 32768
    omega
  · have hpop : ((new "f").call (.emit .pop)).builder.error = some (.stackUnderflow 0) := rfl
    rw [List.append_assoc, List.cons_append, run_cons]
    exact build_of_error ((extends_run _ _).error _ hpop) _

end Builder.Session

end StackVm
