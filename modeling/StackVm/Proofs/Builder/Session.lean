import StackVm.Code.Builder

/-! Clients of the builder.  A client makes calls on a builder, in any order, and finishes it.
The label a forward jump returns is held by the client and handed back to patch that jump, so a
client patches only jumps it emitted.  `Builder.Session` is a builder with the labels it handed
out; `Session.run` makes a list of calls.

What later calls leave of a builder (`Builder.Extends`): every pool and table as a prefix, the
varargs flag, and an error once recorded, which is the one the build reports.  The code grows
by appending, except under a patch, which writes the two operand bytes of its own jump.  The
labels stay an instruction apart (`Session.LabelsApart`), so the operands of two jumps never
overlap, and the three bytes of a jump change only when that jump is patched. -/

namespace StackVm

theorem Opcode.ofByte?_byte (op : Opcode) : Opcode.ofByte? op.byte.toUInt8.toNat = some op := by
  cases op with
  | binary o => cases o <;> decide
  | compareWith o => cases o <;> decide
  | unary o => cases o <;> decide
  | callArgs n =>
    obtain ⟨n, hn⟩ := n
    match n, hn with
    | 0, _ | 1, _ | 2, _ | 3, _ | 4, _ => rfl
  | _ => decide

namespace CodeFlags

theorem hasVarargs_eq (f : CodeFlags) : f.hasVarargs = f.bits.testBit 3 := by
  have h8 : ∀ i, (8 : Nat).testBit i = decide (3 = i) := fun i => @Nat.testBit_two_pow 3 i
  unfold hasVarargs contains varargs
  dsimp only
  by_cases h : f.bits.testBit 3
  · have hand : f.bits &&& 8 = 8 := Nat.eq_of_testBit_eq fun i => by
      rw [Nat.testBit_and, h8]
      by_cases hi : 3 = i
      · subst hi
        simp [h]
      · simp [hi]
    simp [hand, h]
  · have hand : f.bits &&& 8 ≠ 8 := fun he => h (by
      simpa [Nat.testBit_and, h8] using congrArg (·.testBit 3) he)
    simp [hand, h]

theorem hasVarargs_union (a f : CodeFlags) :
    (a.union f).hasVarargs = (a.hasVarargs || f.hasVarargs) := by
  simp only [hasVarargs_eq, union, Nat.testBit_or]

end CodeFlags

namespace Builder

/-- The code emitted so far, byte by byte. -/
def code (b : Builder) : List UInt8 := b.bytecode.data.toList

theorem getElem?_bytecode (b : Builder) (i : Nat) : b.bytecode[i]? = b.code[i]? := by
  by_cases h : i < b.bytecode.size
  · rw [getElem?_pos b.bytecode i h, code, Array.getElem?_toList,
      getElem?_pos b.bytecode.data i h, ByteArray.getElem_eq_getElem_data]
  · rw [getElem?_neg b.bytecode i h, code, Array.getElem?_toList, getElem?_neg b.bytecode.data i h]

theorem toUnit_byteAt (b : Builder) (n i : Nat) :
    (b.toUnit n).byteAt i = ((b.code[i]?).getD 0).toNat := by
  simp only [CodeUnit.byteAt, toUnit, getElem?_bytecode]

theorem fail_eq (b : Builder) (e : CodeError) :
    b.fail e = { b with error := some (b.error.getD e) } := by
  cases b
  unfold fail
  split <;> simp_all

theorem build_of_error {b : Builder} {e : CodeError} (h : b.error = some e) (isCode : Value → Bool) :
    b.build isCode = .error e := by
  simp [build, h, bind, Except.bind, throw, throwThe, MonadExceptOf.throw]

/-- A build that succeeds had no error recorded, a stack bound that fits, and gives the unit the
builder describes, checked. -/
theorem build_ok {b : Builder} {isCode : Value → Bool} {u : CodeUnit}
    (h : b.build isCode = .ok u) :
    b.error = none ∧ b.maxDepth ≤ 65535 ∧ u = b.toUnit b.maxDepth.toNat ∧
      u.validate isCode = .ok () := by
  unfold build at h
  simp only [bind, Except.bind, throw, throwThe, MonadExceptOf.throw] at h
  split at h
  · cases h
  rename_i he
  split at h
  · cases h
  rename_i hd
  split at h
  · cases h
  rename_i hv
  cases h
  refine ⟨?_, by omega, rfl, ?_⟩
  · cases hb : b.error with
    | none => rfl
    | some e => exact absurd hb (he e)
  · cases hu : (b.toUnit b.maxDepth.toNat).validate isCode with
    | error e => rw [hu] at hv; cases hv
    | ok v => rfl

/-- A builder with no error recorded and a stack bound that fits builds its unit, when the unit
passes its check. -/
theorem build_eq_ok {b : Builder} {isCode : Value → Bool} (he : b.error = none)
    (hd : b.maxDepth ≤ 65535) (hv : (b.toUnit b.maxDepth.toNat).validate isCode = .ok ()) :
    b.build isCode = .ok (b.toUnit b.maxDepth.toNat) := by
  have hd' : ¬b.maxDepth > 65535 := by omega
  simp only [build, he, hd', if_false, hv, bind, Except.bind, pure, Except.pure]

/-- What later calls keep of a builder: each pool and table as a prefix, the varargs flag, the
length of the code, and an error once recorded. -/
structure Extends (b b' : Builder) : Prop where
  constants : b.constants.toList <+: b'.constants.toList
  ints : b.ints.toList <+: b'.ints.toList
  floats : b.floats.toList <+: b'.floats.toList
  bigInts : b.bigInts.toList <+: b'.bigInts.toList
  strings : b.strings.toList <+: b'.strings.toList
  bytes : b.bytes.toList <+: b'.bytes.toList
  names : b.names.toList <+: b'.names.toList
  localNames : b.localNames.toList <+: b'.localNames.toList
  cellNames : b.cellNames.toList <+: b'.cellNames.toList
  freeNames : b.freeNames.toList <+: b'.freeNames.toList
  varargs : b.flags.hasVarargs = true → b'.flags.hasVarargs = true
  offset : b.offset ≤ b'.offset
  error : ∀ e, b.error = some e → b'.error = some e

namespace Extends

theorem refl (b : Builder) : b.Extends b :=
  ⟨List.prefix_refl _, List.prefix_refl _, List.prefix_refl _, List.prefix_refl _,
    List.prefix_refl _, List.prefix_refl _, List.prefix_refl _, List.prefix_refl _,
    List.prefix_refl _, List.prefix_refl _, id, Nat.le_refl _, fun _ => id⟩

theorem trans {b₁ b₂ b₃ : Builder} (h₁ : b₁.Extends b₂) (h₂ : b₂.Extends b₃) :
    b₁.Extends b₃ :=
  ⟨h₁.constants.trans h₂.constants, h₁.ints.trans h₂.ints, h₁.floats.trans h₂.floats,
    h₁.bigInts.trans h₂.bigInts, h₁.strings.trans h₂.strings, h₁.bytes.trans h₂.bytes,
    h₁.names.trans h₂.names, h₁.localNames.trans h₂.localNames,
    h₁.cellNames.trans h₂.cellNames, h₁.freeNames.trans h₂.freeNames,
    fun h => h₂.varargs (h₁.varargs h), Nat.le_trans h₁.offset h₂.offset,
    fun e h => h₂.error e (h₁.error e h)⟩

end Extends

/-- What every call but a patch leaves of a builder: `Extends`, and the code as a prefix. -/
structure Grows (b b' : Builder) : Prop where
  toExtends : b.Extends b'
  code : b.code <+: b'.code

theorem Grows.refl (b : Builder) : b.Grows b := ⟨.refl b, List.prefix_refl _⟩

theorem Grows.trans {b₁ b₂ b₃ : Builder} (h₁ : b₁.Grows b₂) (h₂ : b₂.Grows b₃) : b₁.Grows b₃ :=
  ⟨h₁.toExtends.trans h₂.toExtends, h₁.code.trans h₂.code⟩

/-! ### One lemma per builder operation -/

section Operations

variable (b : Builder)

theorem index_of_lt {i : Nat} (what : String) (h : i < 65536) : b.index i what = (b, i) :=
  if_pos h

theorem index_of_le {i : Nat} (what : String) (h : 65536 ≤ i) :
    b.index i what = (b.fail (.tooLarge what), 0) :=
  if_neg (Nat.not_lt.2 h)

theorem grows_fail (e : CodeError) : b.Grows (b.fail e) := by
  rw [fail_eq]
  exact ⟨{ Extends.refl b with error := fun e' h => by simp [h] }, List.prefix_refl _⟩

theorem grows_index (i : Nat) (what : String) : b.Grows (b.index i what).1 := by
  rcases Nat.lt_or_ge i 65536 with h | h
  · rw [index_of_lt b what h]
    exact .refl b
  · rw [index_of_le b what h]
    exact grows_fail b _

theorem grows_setFlags (f : CodeFlags) : b.Grows (b.setFlags f) := by
  refine ⟨?_, List.prefix_refl _⟩
  constructor <;> intros <;> simp_all [setFlags, offset, CodeFlags.hasVarargs_union]

theorem grows_addParam (n : String) : b.Grows (b.addParam n).1 := by
  rcases Nat.lt_or_ge b.localNames.size 65536 with h | h <;>
    exact ⟨by constructor <;> intros <;> simp_all [addParam, index_of_lt, index_of_le, fail_eq, offset],
      by simp_all [addParam, index_of_lt, index_of_le, fail_eq, code]⟩

theorem grows_addVarargs (n : String) : b.Grows (b.addVarargs n).1 := by
  rcases Nat.lt_or_ge b.localNames.size 65536 with h | h <;>
    exact ⟨by
        constructor <;> intros <;>
          simp_all [addVarargs, index_of_lt, index_of_le, fail_eq, offset, CodeFlags.hasVarargs_union],
      by simp_all [addVarargs, index_of_lt, index_of_le, fail_eq, code]⟩

theorem grows_addLocal (n : String) : b.Grows (b.addLocal n).1 := by
  unfold addLocal
  split
  · exact grows_index b _ _
  · rcases Nat.lt_or_ge b.localNames.size 65536 with h | h <;>
      exact ⟨by constructor <;> intros <;> simp_all [index_of_lt, index_of_le, fail_eq, offset],
        by simp_all [index_of_lt, index_of_le, fail_eq, code]⟩

theorem grows_addCellVar (n : String) : b.Grows (b.addCellVar n).1 := by
  have hname : ∀ b' : Builder, b'.Grows { b' with cellNames := b'.cellNames.push n } := fun b' =>
    ⟨by constructor <;> intros <;> simp_all [offset], by simp [code]⟩
  have harg : ∀ (b' : Builder) (x : Nat × Nat), b'.Grows { b' with cellArgs := b'.cellArgs.push x } :=
    fun b' x => ⟨by constructor <;> intros <;> simp_all [offset], by simp [code]⟩
  unfold addCellVar
  rcases hc : b.index b.cellNames.size "cells" with ⟨b₁, cell⟩
  have h₁ : b.Grows b₁ := by
    have := grows_index b b.cellNames.size "cells"
    rwa [hc] at this
  dsimp only
  split
  · rename_i p _
    rcases hp : ({ b₁ with cellNames := b₁.cellNames.push n } : Builder).index p "locals" with ⟨b₂, p'⟩
    have h₂ := grows_index { b₁ with cellNames := b₁.cellNames.push n } p "locals"
    rw [hp] at h₂
    exact ((h₁.trans (hname b₁)).trans h₂).trans (harg b₂ _)
  · exact h₁.trans (hname b₁)

theorem grows_addFreeVar (n : String) : b.Grows (b.addFreeVar n).1 := by
  rcases Nat.lt_or_ge (b.cellNames.size + b.freeNames.size) 65536 with h | h <;>
    exact ⟨by constructor <;> intros <;> simp_all [addFreeVar, index_of_lt, index_of_le, fail_eq, offset],
      by simp_all [addFreeVar, index_of_lt, index_of_le, fail_eq, code]⟩

theorem grows_addName (n : String) : b.Grows (b.addName n).1 := by
  unfold addName
  split
  · exact grows_index b _ _
  · exact (Grows.mk (by constructor <;> intros <;> simp_all [offset]) (by simp [code])).trans
      (grows_index _ _ _)

theorem grows_addConst (v : Value) : b.Grows (b.addConst v).1 :=
  (Grows.mk (by constructor <;> intros <;> simp_all [offset]) (by simp [code])).trans
    (grows_index _ _ _)

theorem grows_addInt (v : Int) : b.Grows (b.addInt v).1 := by
  unfold addInt
  split
  · exact grows_index b _ _
  · exact (Grows.mk (by constructor <;> intros <;> simp_all [offset]) (by simp [code])).trans
      (grows_index _ _ _)

theorem grows_addFloat (v : Float) : b.Grows (b.addFloat v).1 := by
  unfold addFloat
  split
  · exact grows_index b _ _
  · exact (Grows.mk (by constructor <;> intros <;> simp_all [offset]) (by simp [code])).trans
      (grows_index _ _ _)

theorem grows_addBigInt (v : Int) : b.Grows (b.addBigInt v).1 :=
  (Grows.mk (by constructor <;> intros <;> simp_all [offset]) (by simp [code])).trans
    (grows_index _ _ _)

theorem grows_addStr (v : String) : b.Grows (b.addStr v).1 := by
  unfold addStr
  split
  · exact grows_index b _ _
  · exact (Grows.mk (by constructor <;> intros <;> simp_all [offset]) (by simp [code])).trans
      (grows_index _ _ _)

theorem grows_addBytes (v : ByteArray) : b.Grows (b.addBytes v).1 :=
  (Grows.mk (by constructor <;> intros <;> simp_all [offset]) (by simp [code])).trans
    (grows_index _ _ _)

theorem grows_setLocation (line : Nat) : b.Grows (b.setLocation line) := by
  unfold setLocation
  dsimp only
  split <;> (try split) <;> (try split) <;>
    exact ⟨by constructor <;> intros <;> simp_all [offset], by simp_all [code]⟩

theorem grows_setStackDepth (d : Nat) : b.Grows (b.setStackDepth d) :=
  ⟨by constructor <;> intros <;> simp_all [setStackDepth, offset], by simp [setStackDepth, code]⟩

theorem grows_addHandler (r : HandlerRange) : b.Grows (b.addHandler r) :=
  ⟨by constructor <;> intros <;> simp_all [addHandler, offset], by simp [addHandler, code]⟩

theorem grows_adjust (offset : Nat) (effect : Int) : b.Grows (b.adjust offset effect) := by
  unfold adjust
  dsimp only
  split <;> exact ⟨by constructor <;> intros <;> simp_all [Builder.offset, fail_eq],
    by simp_all [code, fail_eq]⟩

theorem foldl_push_data (xs : List Nat) (bs : ByteArray) :
    (xs.foldl (fun acc x => acc.push x.toUInt8) bs).data.toList =
      bs.data.toList ++ xs.map Nat.toUInt8 := by
  induction xs generalizing bs with
  | nil => simp
  | cons x xs ih => simp [ih, ByteArray.data_push]

theorem adjust_bytecode (offset : Nat) (effect : Int) :
    (b.adjust offset effect).bytecode = b.bytecode := by
  unfold adjust
  dsimp only
  split <;> simp [fail_eq]

theorem emitRaw_code (op : Opcode) (operands : List Nat) (effect : Int) :
    (b.emitRaw op operands effect).code = b.code ++ (op.byte :: operands).map Nat.toUInt8 := by
  simp [emitRaw, adjust_bytecode, code, foldl_push_data, ByteArray.data_push]

theorem grows_emitRaw (op : Opcode) (operands : List Nat) (effect : Int) :
    b.Grows (b.emitRaw op operands effect) := by
  unfold emitRaw
  refine Grows.trans ⟨?_, ?_⟩ (grows_adjust _ _ _)
  · constructor <;> intros <;>
      simp_all [offset, ← ByteArray.size_data, ← Array.length_toList, foldl_push_data]
  · simp [code, foldl_push_data, ByteArray.data_push]

theorem grows_emitLoadInt (v : Int) : b.Grows (b.emitLoadInt v) := by
  unfold emitLoadInt
  split
  · exact grows_emitRaw b _ _ _
  · exact (grows_addInt b v).trans (grows_emitRaw _ _ _ _)

theorem grows_emitLoadLocal (slot : Nat) : b.Grows (b.emitLoadLocal slot) := by
  unfold emitLoadLocal
  split <;> exact grows_emitRaw b _ _ _

theorem grows_emitStoreLocal (slot : Nat) : b.Grows (b.emitStoreLocal slot) := by
  unfold emitStoreLocal
  split <;> exact grows_emitRaw b _ _ _

theorem grows_emitLoadStr (v : String) : b.Grows (b.emitLoadStr v) :=
  (grows_addStr b v).trans (grows_emitRaw _ _ _ _)

theorem grows_emitLoadConst (v : Value) : b.Grows (b.emitLoadConst v) :=
  (grows_addConst b v).trans (grows_emitRaw _ _ _ _)

theorem grows_emitJumpBack (target : Nat) : b.Grows (b.emitJumpBack target) := by
  unfold emitJumpBack
  dsimp only
  split
  · exact grows_emitRaw b _ _ _
  · exact (grows_fail b _).trans (grows_emitRaw _ _ _ _)

/-- A patch keeps everything `Extends` asks for: it writes two bytes and at most records an
error. -/
theorem extends_patchJump (label : Nat) : b.Extends (b.patchJump label) := by
  unfold patchJump
  dsimp only
  split <;> constructor <;> intros <;> simp_all [fail_eq, offset]

theorem offset_eq_length : b.offset = b.code.length := by
  simp [offset, code, ByteArray.size_data]

theorem toList_set! (bs : ByteArray) (i : Nat) (v : UInt8) :
    (bs.set! i v).data.toList = bs.data.toList.set i v := by
  simp [ByteArray.set!, Array.set!_eq_setIfInBounds]

theorem patchJump_code_ne {label i : Nat} (h₁ : i ≠ label) (h₂ : i ≠ label + 1) :
    (b.patchJump label).code[i]? = b.code[i]? := by
  unfold patchJump
  dsimp only
  split <;>
    simp [code, fail_eq, ByteArray.set!, Array.set!_eq_setIfInBounds, Ne.symm h₁, Ne.symm h₂]

end Operations

/-- A call a client makes on a builder.  A patch names the jump it completes by its number
among the forward jumps emitted, which stands for the label the client was given. -/
inductive Call where
  | setFlags (f : CodeFlags)
  | addParam (name : String)
  | addVarargs (name : String)
  | addLocal (name : String)
  | addCellVar (name : String)
  | addFreeVar (name : String)
  | addName (name : String)
  | addConst (v : Value)
  | addInt (v : Int)
  | addFloat (v : Float)
  | addBigInt (v : Int)
  | addStr (v : String)
  | addBytes (v : ByteArray)
  | setLocation (line : Nat)
  | setStackDepth (depth : Nat)
  | emit (op : Opcode)
  | emitU8 (op : Opcode) (n : Nat)
  | emitI8 (op : Opcode) (n : Int)
  | emitU16 (op : Opcode) (n : Nat)
  | emitU16U8 (op : Opcode) (n extra : Nat)
  | emitLoadInt (v : Int)
  | emitLoadLocal (slot : Nat)
  | emitStoreLocal (slot : Nat)
  | emitLoadStr (v : String)
  | emitLoadConst (v : Value)
  | emitJump (op : Opcode)
  | patchJump (jump : Nat)
  | emitJumpBack (target : Nat)
  | addHandler (r : HandlerRange)

/-- Whether a call patches a jump. -/
def Call.isPatch : Call → Bool
  | .patchJump _ => true
  | _ => false

/-- Whether a call emits a forward jump. -/
def Call.isJump : Call → Bool
  | .emitJump _ => true
  | _ => false

/-- A builder in a client's hands, with the labels of the forward jumps emitted on it. -/
structure Session where
  builder : Builder
  labels : Array Nat := #[]

namespace Session

/-- Makes one call, keeping the label a forward jump returns. -/
def call (s : Session) : Call → Session
  | .setFlags f => { s with builder := s.builder.setFlags f }
  | .addParam n => { s with builder := (s.builder.addParam n).1 }
  | .addVarargs n => { s with builder := (s.builder.addVarargs n).1 }
  | .addLocal n => { s with builder := (s.builder.addLocal n).1 }
  | .addCellVar n => { s with builder := (s.builder.addCellVar n).1 }
  | .addFreeVar n => { s with builder := (s.builder.addFreeVar n).1 }
  | .addName n => { s with builder := (s.builder.addName n).1 }
  | .addConst v => { s with builder := (s.builder.addConst v).1 }
  | .addInt v => { s with builder := (s.builder.addInt v).1 }
  | .addFloat v => { s with builder := (s.builder.addFloat v).1 }
  | .addBigInt v => { s with builder := (s.builder.addBigInt v).1 }
  | .addStr v => { s with builder := (s.builder.addStr v).1 }
  | .addBytes v => { s with builder := (s.builder.addBytes v).1 }
  | .setLocation line => { s with builder := s.builder.setLocation line }
  | .setStackDepth d => { s with builder := s.builder.setStackDepth d }
  | .emit op => { s with builder := s.builder.emit op }
  | .emitU8 op n => { s with builder := s.builder.emitU8 op n }
  | .emitI8 op n => { s with builder := s.builder.emitI8 op n }
  | .emitU16 op n => { s with builder := s.builder.emitU16 op n }
  | .emitU16U8 op n extra => { s with builder := s.builder.emitU16U8 op n extra }
  | .emitLoadInt v => { s with builder := s.builder.emitLoadInt v }
  | .emitLoadLocal slot => { s with builder := s.builder.emitLoadLocal slot }
  | .emitStoreLocal slot => { s with builder := s.builder.emitStoreLocal slot }
  | .emitLoadStr v => { s with builder := s.builder.emitLoadStr v }
  | .emitLoadConst v => { s with builder := s.builder.emitLoadConst v }
  | .emitJump op =>
    let (b, label) := s.builder.emitJump op
    { builder := b, labels := s.labels.push label }
  | .patchJump k =>
    match s.labels[k]? with
    | some label => { s with builder := s.builder.patchJump label }
    | none => s
  | .emitJumpBack target => { s with builder := s.builder.emitJumpBack target }
  | .addHandler r => { s with builder := s.builder.addHandler r }

/-- A fresh builder for a unit of a given name, with no label handed out. -/
def new (name : String) : Session := { builder := Builder.new name }

/-- Makes the calls in order. -/
def run (s : Session) (cs : List Call) : Session := cs.foldl call s

@[simp] theorem run_nil (s : Session) : s.run [] = s := rfl

@[simp] theorem run_cons (s : Session) (c : Call) (cs : List Call) :
    s.run (c :: cs) = (s.call c).run cs := rfl

theorem run_append (s : Session) (cs cs' : List Call) :
    s.run (cs ++ cs') = (s.run cs).run cs' := List.foldl_append

theorem call_patchJump_of {s : Session} {k l : Nat} (hk : s.labels[k]? = some l) :
    s.call (.patchJump k) = { s with builder := s.builder.patchJump l } := by
  simp [call, hk]

theorem call_patchJump_none {s : Session} {k : Nat} (hk : s.labels[k]? = none) :
    s.call (.patchJump k) = s := by
  simp [call, hk]

/-! ### What calls keep -/

theorem grows_call (s : Session) {c : Call} (hc : c.isPatch = false) :
    s.builder.Grows (s.call c).builder := by
  cases c with
  | setFlags f => exact s.builder.grows_setFlags f
  | addParam n => exact s.builder.grows_addParam n
  | addVarargs n => exact s.builder.grows_addVarargs n
  | addLocal n => exact s.builder.grows_addLocal n
  | addCellVar n => exact s.builder.grows_addCellVar n
  | addFreeVar n => exact s.builder.grows_addFreeVar n
  | addName n => exact s.builder.grows_addName n
  | addConst v => exact s.builder.grows_addConst v
  | addInt v => exact s.builder.grows_addInt v
  | addFloat v => exact s.builder.grows_addFloat v
  | addBigInt v => exact s.builder.grows_addBigInt v
  | addStr v => exact s.builder.grows_addStr v
  | addBytes v => exact s.builder.grows_addBytes v
  | setLocation line => exact s.builder.grows_setLocation line
  | setStackDepth d => exact s.builder.grows_setStackDepth d
  | emit op => exact s.builder.grows_emitRaw op _ _
  | emitU8 op n => exact s.builder.grows_emitRaw op _ _
  | emitI8 op n => exact s.builder.grows_emitRaw op _ _
  | emitU16 op n => exact s.builder.grows_emitRaw op _ _
  | emitU16U8 op n extra => exact s.builder.grows_emitRaw op _ _
  | emitLoadInt v => exact s.builder.grows_emitLoadInt v
  | emitLoadLocal slot => exact s.builder.grows_emitLoadLocal slot
  | emitStoreLocal slot => exact s.builder.grows_emitStoreLocal slot
  | emitLoadStr v => exact s.builder.grows_emitLoadStr v
  | emitLoadConst v => exact s.builder.grows_emitLoadConst v
  | emitJump op => exact s.builder.grows_emitRaw op _ _
  | patchJump k => cases hc
  | emitJumpBack target => exact s.builder.grows_emitJumpBack target
  | addHandler r => exact s.builder.grows_addHandler r

theorem extends_call (s : Session) (c : Call) : s.builder.Extends (s.call c).builder := by
  cases hc : c.isPatch
  · exact (s.grows_call hc).toExtends
  · cases c <;> try cases hc
    rename_i k
    cases hk : s.labels[k]? with
    | some l =>
      rw [call_patchJump_of hk]
      exact s.builder.extends_patchJump l
    | none =>
      rw [call_patchJump_none hk]
      exact .refl _

theorem extends_run (s : Session) (cs : List Call) : s.builder.Extends (s.run cs).builder := by
  induction cs generalizing s with
  | nil => exact .refl _
  | cons c cs ih => exact (s.extends_call c).trans (ih _)

theorem labels_call (s : Session) (c : Call) :
    (s.call c).labels = if c.isJump then s.labels.push (s.builder.offset + 1) else s.labels := by
  cases c <;> try rfl
  rename_i k
  cases hk : s.labels[k]?
  · rw [call_patchJump_none hk]
    rfl
  · rw [call_patchJump_of hk]
    rfl

theorem labels_getElem?_call {s : Session} {k l : Nat} (hk : s.labels[k]? = some l) (c : Call) :
    (s.call c).labels[k]? = some l := by
  have hlt := (Array.getElem?_eq_some_iff.1 hk).1
  rw [labels_call]
  split
  · rw [Array.getElem?_push, if_neg (by omega)]
    exact hk
  · exact hk

theorem labels_getElem?_run {s : Session} {k l : Nat} (hk : s.labels[k]? = some l)
    (cs : List Call) : (s.run cs).labels[k]? = some l := by
  induction cs generalizing s with
  | nil => exact hk
  | cons c cs ih => exact ih (labels_getElem?_call hk c)

theorem labels_size_run (s : Session) (cs : List Call) :
    (s.run cs).labels.size = s.labels.size + cs.countP Call.isJump := by
  induction cs generalizing s with
  | nil => rfl
  | cons c cs ih =>
    rw [run_cons, ih, labels_call, List.countP_cons]
    split <;> simp_all
    omega

/-! ### Labels -/

/-- The labels a session handed out are the operands of distinct jumps of its code: each has
its opcode byte before it and its two bytes within the code, and each lies an instruction past
the one before. -/
structure LabelsApart (s : Session) : Prop where
  apart : s.labels.toList.Pairwise (fun l l' => l + 3 ≤ l')
  inCode : ∀ l ∈ s.labels, 1 ≤ l ∧ l + 2 ≤ s.builder.offset

theorem labelsApart_new (name : String) : (new name).LabelsApart :=
  ⟨List.Pairwise.nil, fun _ h => nomatch h⟩

theorem labelsApart_call {s : Session} (hs : s.LabelsApart) (c : Call) : (s.call c).LabelsApart := by
  have hoff := (s.extends_call c).offset
  cases hj : c.isJump
  · have hl : (s.call c).labels = s.labels := by simp [labels_call, hj]
    refine ⟨hl ▸ hs.apart, fun l hm => ?_⟩
    obtain ⟨h₁, h₂⟩ := hs.inCode l (hl ▸ hm)
    exact ⟨h₁, by omega⟩
  · cases c <;> try cases hj
    rename_i op
    have hl : (s.call (.emitJump op)).labels = s.labels.push (s.builder.offset + 1) := rfl
    have hsize : (s.call (.emitJump op)).builder.offset = s.builder.offset + 3 := by
      show (s.builder.emitRaw op [0, 0] _).offset = _
      simp [offset_eq_length, emitRaw_code]
    refine ⟨?_, fun l hm => ?_⟩
    · rw [hl, Array.toList_push, List.pairwise_append]
      refine ⟨hs.apart, List.pairwise_singleton _ _, fun l hm l' hm' => ?_⟩
      rw [List.mem_singleton] at hm'
      have := hs.inCode l (Array.mem_toList_iff.1 hm)
      omega
    · rw [hl] at hm
      rcases Array.mem_push.1 hm with hm | rfl
      · have := hs.inCode l hm
        omega
      · omega

theorem labelsApart_run {s : Session} (hs : s.LabelsApart) (cs : List Call) :
    (s.run cs).LabelsApart := by
  induction cs generalizing s with
  | nil => exact hs
  | cons c cs ih => exact ih (labelsApart_call hs c)

theorem LabelsApart.sep {s : Session} (hs : s.LabelsApart) {k k' l l' : Nat}
    (hk : s.labels[k]? = some l) (hk' : s.labels[k']? = some l') (hne : k ≠ k') :
    l + 3 ≤ l' ∨ l' + 3 ≤ l := by
  obtain ⟨hkl, rfl⟩ := Array.getElem?_eq_some_iff.1 hk
  obtain ⟨hkl', rfl⟩ := Array.getElem?_eq_some_iff.1 hk'
  have hp := List.pairwise_iff_getElem.1 hs.apart
  rcases Nat.lt_or_gt_of_ne hne with h | h
  · have := hp k k' (by simpa using hkl) (by simpa using hkl') h
    simp only [Array.getElem_toList] at this
    exact .inl this
  · have := hp k' k (by simpa using hkl') (by simpa using hkl) h
    simp only [Array.getElem_toList] at this
    exact .inr this

/-- A call leaves a byte of the code as it is unless it patches a jump the byte is an operand
of. -/
theorem byte_call {s : Session} {c : Call} {i : Nat} (hi : i < s.builder.offset)
    (hc : ∀ k l, s.labels[k]? = some l → (i = l ∨ i = l + 1) → c ≠ .patchJump k) :
    (s.call c).builder.code[i]? = s.builder.code[i]? := by
  cases hp : c.isPatch
  · obtain ⟨t, ht⟩ := (s.grows_call hp).code
    rw [← ht, List.getElem?_append_left (by rw [← offset_eq_length]; exact hi)]
  · cases c <;> try cases hp
    rename_i k
    cases hk : s.labels[k]? with
    | none => rw [call_patchJump_none hk]
    | some l =>
      rw [call_patchJump_of hk]
      have hne := fun h => hc k l hk h rfl
      exact s.builder.patchJump_code_ne (fun h => hne (.inl h)) (fun h => hne (.inr h))

/-- Calls leave a byte of the code as it is unless they patch a jump the byte is an operand
of. -/
theorem byte_run {s : Session} (hs : s.LabelsApart) {cs : List Call} {i : Nat}
    (hi : i < s.builder.offset)
    (hcs : ∀ k l, s.labels[k]? = some l → (i = l ∨ i = l + 1) → .patchJump k ∉ cs) :
    (s.run cs).builder.code[i]? = s.builder.code[i]? := by
  induction cs generalizing s with
  | nil => rfl
  | cons c cs ih =>
    rw [run_cons]
    have hcs' : ∀ k l, (s.call c).labels[k]? = some l → (i = l ∨ i = l + 1) → .patchJump k ∉ cs := by
      intro k l hk hil
      rw [labels_call] at hk
      split at hk
      · rw [Array.getElem?_push] at hk
        split at hk
        · cases hk
          omega
        · exact fun h => hcs k l hk hil (List.mem_cons_of_mem c h)
      · exact fun h => hcs k l hk hil (List.mem_cons_of_mem c h)
    rw [ih (labelsApart_call hs c) (Nat.lt_of_lt_of_le hi (s.extends_call c).offset) hcs',
      byte_call hi fun k l hk hil h => hcs k l hk hil (h ▸ List.mem_cons_self)]

theorem byte_run_of_unlabelled {s : Session} (hs : s.LabelsApart) {i : Nat}
    (hi : i < s.builder.offset) (hl : ∀ l ∈ s.labels, i ≠ l ∧ i ≠ l + 1) (cs : List Call) :
    (s.run cs).builder.code[i]? = s.builder.code[i]? := by
  refine byte_run hs hi fun k l hk hil => ?_
  have := hl l (Array.mem_of_getElem? hk)
  omega

theorem jumpByte_run {s : Session} (hs : s.LabelsApart) {k l : Nat} (hk : s.labels[k]? = some l)
    {cs : List Call} (hcs : .patchJump k ∉ cs) {i : Nat} (hi : l ≤ i + 1 ∧ i ≤ l + 1) :
    (s.run cs).builder.code[i]? = s.builder.code[i]? := by
  have hl := hs.inCode l (Array.mem_of_getElem? hk)
  refine byte_run hs (by omega) fun k' l' hk' hil' => ?_
  by_cases hkk : k = k'
  · exact hkk ▸ hcs
  · have := hs.sep hk hk' hkk
    omega

end Session

end Builder

end StackVm
