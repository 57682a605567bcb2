import StackVm.Proofs.Builder.Session

/-! The pools and tables a builder fills.  A call that registers an entry (a parameter, a local,
a cell, a free variable, a name, or a value of one of the six pools) returns an index narrowed
to sixteen bits by `Builder.index`: either the index addresses the entry and the call records
nothing, or it does not fit and the call records `TooLarge` for its table, unless an error was
recorded before (`Builder.Registers`).

Main statements, one for each operation: `addName_registers` and its siblings; `fits_addName`
and its siblings, by which the pools and tables stay within the operands that index them as
long as no error is recorded (`Builder.Fits`); and `Builder.Keeps`, what a call that registers
nothing leaves as it is.  The parameter count is not among the tables: `addParam` counts modulo
`65536` without a check of its own. -/

namespace Array

theorem getElem?_of_idxOf? {α : Type} [BEq α] [LawfulBEq α] {xs : Array α} {a : α} {i : Nat}
    (h : xs.idxOf? a = some i) : xs[i]? = some a := by
  rw [idxOf?_eq_map_finIdxOf?_val] at h
  obtain ⟨j, hj, rfl⟩ := Option.map_eq_some_iff.1 h
  rw [getElem?_eq_getElem j.isLt]
  exact congrArg some (finIdxOf?_eq_some_iff.1 hj).1

theorem getElem?_of_prefix {α : Type} {xs ys : Array α} (h : xs.toList <+: ys.toList) {i : Nat}
    {a : α} (hx : xs[i]? = some a) : ys[i]? = some a := by
  rw [← getElem?_toList] at hx ⊢
  obtain ⟨hi, rfl⟩ := List.getElem?_eq_some_iff.1 hx
  exact List.prefix_iff_getElem?.1 h i hi

end Array

namespace StackVm

/-- Every pool and table of a unit fits the sixteen-bit operands that index it; the cells and the
free variables share one space of indices. -/
structure CodeUnit.Bounded (u : CodeUnit) : Prop where
  constants : u.constants.size ≤ 65536
  ints : u.ints.size ≤ 65536
  floats : u.floats.size ≤ 65536
  bigInts : u.bigInts.size ≤ 65536
  strings : u.strings.size ≤ 65536
  bytes : u.bytes.size ≤ 65536
  names : u.names.size ≤ 65536
  localNames : u.localNames.size ≤ 65536
  cells : u.cellNames.size + u.freeNames.size ≤ 65536

namespace Builder

/-- What a call that registers an entry leaves, against the builder `b` it was made on: the
error as it was and the entry registered, or the error `TooLarge` of the table, unless an error
was recorded before. -/
def Registers (b b' : Builder) (what : String) (entry : Prop) : Prop :=
  (b'.error = b.error ∧ entry) ∨ b'.error = some (b.error.getD (.tooLarge what))

/-- The pools and tables of the unit a builder describes stay within their operands, unless an
error is recorded. -/
def Fits (b : Builder) : Prop := b.error = none → (b.toUnit 0).Bounded

theorem fits_new (name : String) : (new name).Fits := fun _ =>
  ⟨Nat.zero_le _, Nat.zero_le _, Nat.zero_le _, Nat.zero_le _, Nat.zero_le _, Nat.zero_le _,
    Nat.zero_le _, Nat.zero_le _, Nat.zero_le _⟩

/-- What a call that registers nothing leaves as it is: every pool and table, the parameter
count and the flags. -/
structure Keeps (b b' : Builder) : Prop where
  constants : b'.constants = b.constants
  ints : b'.ints = b.ints
  floats : b'.floats = b.floats
  bigInts : b'.bigInts = b.bigInts
  strings : b'.strings = b.strings
  bytes : b'.bytes = b.bytes
  names : b'.names = b.names
  localNames : b'.localNames = b.localNames
  cellNames : b'.cellNames = b.cellNames
  freeNames : b'.freeNames = b.freeNames
  argCount : b'.argCount = b.argCount
  flags : b'.flags = b.flags

namespace Keeps

theorem refl (b : Builder) : b.Keeps b := ⟨rfl, rfl, rfl, rfl, rfl, rfl, rfl, rfl, rfl, rfl, rfl, rfl⟩

theorem trans {b₁ b₂ b₃ : Builder} (h₁ : b₁.Keeps b₂) (h₂ : b₂.Keeps b₃) : b₁.Keeps b₃ :=
  ⟨h₂.1.trans h₁.1, h₂.2.trans h₁.2, h₂.3.trans h₁.3, h₂.4.trans h₁.4, h₂.5.trans h₁.5,
    h₂.6.trans h₁.6, h₂.7.trans h₁.7, h₂.8.trans h₁.8, h₂.9.trans h₁.9, h₂.10.trans h₁.10,
    h₂.11.trans h₁.11, h₂.12.trans h₁.12⟩

theorem fits {b b' : Builder} (h : b.Keeps b') (he : b'.error = none → b.error = none)
    (hb : b.Fits) : b'.Fits := fun hn =>
  have hB := hb (he hn)
  ⟨show b'.constants.size ≤ 65536 from h.constants ▸ hB.constants,
    show b'.ints.size ≤ 65536 from h.ints ▸ hB.ints,
    show b'.floats.size ≤ 65536 from h.floats ▸ hB.floats,
    show b'.bigInts.size ≤ 65536 from h.bigInts ▸ hB.bigInts,
    show b'.strings.size ≤ 65536 from h.strings ▸ hB.strings,
    show b'.bytes.size ≤ 65536 from h.bytes ▸ hB.bytes,
    show b'.names.size ≤ 65536 from h.names ▸ hB.names,
    show b'.localNames.size ≤ 65536 from h.localNames ▸ hB.localNames,
    show b'.cellNames.size + b'.freeNames.size ≤ 65536 from h.cellNames ▸ h.freeNames ▸ hB.cells⟩

end Keeps

/-- What a call that registers no parameter, cell or free variable and sets no flag leaves as it
is. -/
structure KeepsDecls (b b' : Builder) : Prop where
  cellNames : b'.cellNames = b.cellNames
  freeNames : b'.freeNames = b.freeNames
  argCount : b'.argCount = b.argCount
  flags : b'.flags = b.flags

theorem Keeps.decls {b b' : Builder} (h : b.Keeps b') : b.KeepsDecls b' :=
  ⟨h.cellNames, h.freeNames, h.argCount, h.flags⟩

theorem KeepsDecls.trans {b₁ b₂ b₃ : Builder} (h₁ : b₁.KeepsDecls b₂) (h₂ : b₂.KeepsDecls b₃) :
    b₁.KeepsDecls b₃ :=
  ⟨h₂.1.trans h₁.1, h₂.2.trans h₁.2, h₂.3.trans h₁.3, h₂.4.trans h₁.4⟩

theorem error_none_of_extends {b b' : Builder} (h : b.Extends b') (hn : b'.error = none) :
    b.error = none := by
  cases he : b.error with
  | none => rfl
  | some e => rw [h.error e he] at hn; cases hn

section Operations

variable (b : Builder)

/-! ### Narrowing an index -/

theorem keeps_fail (e : CodeError) : b.Keeps (b.fail e) := by
  rw [fail_eq]
  exact ⟨rfl, rfl, rfl, rfl, rfl, rfl, rfl, rfl, rfl, rfl, rfl, rfl⟩

theorem keeps_index (i : Nat) (what : String) : b.Keeps (b.index i what).1 := by
  rcases Nat.lt_or_ge i 65536 with h | h
  · rw [index_of_lt b what h]
    exact .refl b
  · rw [index_of_le b what h]
    exact keeps_fail b _

/-- An index that fits is the one returned, with nothing recorded; one that does not records
`TooLarge`. -/
theorem registers_index {b₁ : Builder} (he : b₁.error = b.error) {i : Nat} (what : String)
    (entry : Builder → Nat → Prop) (h : i < 65536 → entry b₁ i) :
    Registers b (b₁.index i what).1 what (entry (b₁.index i what).1 (b₁.index i what).2) := by
  rcases Nat.lt_or_ge i 65536 with hi | hi
  · rw [index_of_lt b₁ what hi]
    exact .inl ⟨he, h hi⟩
  · rw [index_of_le b₁ what hi, fail_eq, he]
    exact .inr rfl

/-- An index is narrowed after the entry is in its table: the tables fit when the entry's
index does. -/
theorem fits_index {b₁ : Builder} (he : b₁.error = b.error) (hb : b.Fits) {i : Nat}
    (what : String) (h : i < 65536 → (b.toUnit 0).Bounded → (b₁.toUnit 0).Bounded) :
    (b₁.index i what).1.Fits := by
  intro hn
  rcases Nat.lt_or_ge i 65536 with hi | hi
  · rw [index_of_lt b₁ what hi] at hn ⊢
    exact h hi (hb (he ▸ hn))
  · rw [index_of_le b₁ what hi, fail_eq] at hn
    cases hn

theorem index_snd_lt (i : Nat) (what : String) : (b.index i what).2 < 65536 := by
  unfold index
  split
  · assumption
  · exact Nat.zero_lt_succ _

theorem code_index (i : Nat) (what : String) : (b.index i what).1.code = b.code := by
  unfold index
  split
  · rfl
  · rw [fail_eq]
    rfl

/-! ### Pools: the entry found or pushed, then its index narrowed -/

theorem addName_registers (n : String) :
    Registers b (b.addName n).1 "names" ((b.addName n).1.names[(b.addName n).2]? = some n) := by
  rcases h : b.names.idxOf? n with _ | i
  · simp only [addName, h]
    exact registers_index b (by rfl) "names" (fun b' j => b'.names[j]? = some n) fun _ => by simp
  · simp only [addName, h]
    exact registers_index b (by rfl) "names" (fun b' j => b'.names[j]? = some n) fun _ =>
      Array.getElem?_of_idxOf? h

theorem fits_addName (hb : b.Fits) (n : String) : (b.addName n).1.Fits := by
  unfold addName
  split
  · exact fits_index b (by rfl) hb "names" fun _ => id
  · exact fits_index b (by rfl) hb "names" fun hi hB => { hB with names := by simp [toUnit]; omega }

theorem keepsDecls_addName (n : String) : b.KeepsDecls (b.addName n).1 := by
  unfold addName
  split
  · exact (keeps_index b _ _).decls
  · exact KeepsDecls.trans (by exact ⟨rfl, rfl, rfl, rfl⟩) (keeps_index _ _ _).decls

theorem addConst_registers (v : Value) :
    Registers b (b.addConst v).1 "constants"
      ((b.addConst v).1.constants[(b.addConst v).2]? = some v) :=
  registers_index b (by rfl) "constants" (fun b' j => b'.constants[j]? = some v) fun _ => by simp

theorem fits_addConst (hb : b.Fits) (v : Value) : (b.addConst v).1.Fits :=
  fits_index b (by rfl) hb "constants" fun hi hB => { hB with constants := by simp [toUnit]; omega }

theorem keepsDecls_addConst (v : Value) : b.KeepsDecls (b.addConst v).1 :=
  KeepsDecls.trans (by exact ⟨rfl, rfl, rfl, rfl⟩) (keeps_index _ _ _).decls

theorem code_addConst (v : Value) : (b.addConst v).1.code = b.code :=
  code_index _ _ _

theorem addConst_snd_lt (v : Value) : (b.addConst v).2 < 65536 :=
  index_snd_lt _ _ _

theorem addInt_registers (v : Int) :
    Registers b (b.addInt v).1 "ints" ((b.addInt v).1.ints[(b.addInt v).2]? = some v) := by
  rcases h : b.ints.idxOf? v with _ | i
  · simp only [addInt, h]
    exact registers_index b (by rfl) "ints" (fun b' j => b'.ints[j]? = some v) fun _ => by simp
  · simp only [addInt, h]
    exact registers_index b (by rfl) "ints" (fun b' j => b'.ints[j]? = some v) fun _ =>
      Array.getElem?_of_idxOf? h

theorem fits_addInt (hb : b.Fits) (v : Int) : (b.addInt v).1.Fits := by
  unfold addInt
  split
  · exact fits_index b (by rfl) hb "ints" fun _ => id
  · exact fits_index b (by rfl) hb "ints" fun hi hB => { hB with ints := by simp [toUnit]; omega }

theorem keepsDecls_addInt (v : Int) : b.KeepsDecls (b.addInt v).1 := by
  unfold addInt
  split
  · exact (keeps_index b _ _).decls
  · exact KeepsDecls.trans (by exact ⟨rfl, rfl, rfl, rfl⟩) (keeps_index _ _ _).decls

theorem code_addInt (v : Int) : (b.addInt v).1.code = b.code := by
  unfold addInt
  split <;> exact code_index _ _ _

theorem addInt_snd_lt (v : Int) : (b.addInt v).2 < 65536 := by
  unfold addInt
  split <;> exact index_snd_lt _ _ _

theorem addFloat_registers (v : Float) :
    Registers b (b.addFloat v).1 "floats"
      (∃ f, (b.addFloat v).1.floats[(b.addFloat v).2]? = some f ∧ f.toBits = v.toBits) := by
  rcases h : b.floats.findIdx? (·.toBits == v.toBits) with _ | i
  · simp only [addFloat, h]
    exact registers_index b (by rfl) "floats"
      (fun b' j => ∃ f, b'.floats[j]? = some f ∧ f.toBits = v.toBits) fun _ => ⟨v, by simp, rfl⟩
  · simp only [addFloat, h]
    obtain ⟨hi, hbits, -⟩ := Array.findIdx?_eq_some_iff_getElem.1 h
    exact registers_index b (by rfl) "floats"
      (fun b' j => ∃ f, b'.floats[j]? = some f ∧ f.toBits = v.toBits) fun _ =>
        ⟨b.floats[i], Array.getElem?_eq_getElem hi, by simpa using hbits⟩

theorem fits_addFloat (hb : b.Fits) (v : Float) : (b.addFloat v).1.Fits := by
  unfold addFloat
  split
  · exact fits_index b (by rfl) hb "floats" fun _ => id
  · exact fits_index b (by rfl) hb "floats" fun hi hB => { hB with floats := by simp [toUnit]; omega }

theorem keepsDecls_addFloat (v : Float) : b.KeepsDecls (b.addFloat v).1 := by
  unfold addFloat
  split
  · exact (keeps_index b _ _).decls
  · exact KeepsDecls.trans (by exact ⟨rfl, rfl, rfl, rfl⟩) (keeps_index _ _ _).decls

theorem addBigInt_registers (v : Int) :
    Registers b (b.addBigInt v).1 "big_ints"
      ((b.addBigInt v).1.bigInts[(b.addBigInt v).2]? = some v) :=
  registers_index b (by rfl) "big_ints" (fun b' j => b'.bigInts[j]? = some v) fun _ => by simp

theorem fits_addBigInt (hb : b.Fits) (v : Int) : (b.addBigInt v).1.Fits :=
  fits_index b (by rfl) hb "big_ints" fun hi hB => { hB with bigInts := by simp [toUnit]; omega }

theorem keepsDecls_addBigInt (v : Int) : b.KeepsDecls (b.addBigInt v).1 :=
  KeepsDecls.trans (by exact ⟨rfl, rfl, rfl, rfl⟩) (keeps_index _ _ _).decls

theorem addStr_registers (v : String) :
    Registers b (b.addStr v).1 "strings" ((b.addStr v).1.strings[(b.addStr v).2]? = some v) := by
  rcases h : b.strings.idxOf? v with _ | i
  · simp only [addStr, h]
    exact registers_index b (by rfl) "strings" (fun b' j => b'.strings[j]? = some v) fun _ => by simp
  · simp only [addStr, h]
    exact registers_index b (by rfl) "strings" (fun b' j => b'.strings[j]? = some v) fun _ =>
      Array.getElem?_of_idxOf? h

theorem fits_addStr (hb : b.Fits) (v : String) : (b.addStr v).1.Fits := by
  unfold addStr
  split
  · exact fits_index b (by rfl) hb "strings" fun _ => id
  · exact fits_index b (by rfl) hb "strings" fun hi hB => { hB with strings := by simp [toUnit]; omega }

theorem keepsDecls_addStr (v : String) : b.KeepsDecls (b.addStr v).1 := by
  unfold addStr
  split
  · exact (keeps_index b _ _).decls
  · exact KeepsDecls.trans (by exact ⟨rfl, rfl, rfl, rfl⟩) (keeps_index _ _ _).decls

theorem code_addStr (v : String) : (b.addStr v).1.code = b.code := by
  unfold addStr
  split <;> exact code_index _ _ _

theorem addStr_snd_lt (v : String) : (b.addStr v).2 < 65536 := by
  unfold addStr
  split <;> exact index_snd_lt _ _ _

theorem addBytes_registers (v : ByteArray) :
    Registers b (b.addBytes v).1 "bytes" ((b.addBytes v).1.bytes[(b.addBytes v).2]? = some v) :=
  registers_index b (by rfl) "bytes" (fun b' j => b'.bytes[j]? = some v) fun _ => by simp

theorem fits_addBytes (hb : b.Fits) (v : ByteArray) : (b.addBytes v).1.Fits :=
  fits_index b (by rfl) hb "bytes" fun hi hB => { hB with bytes := by simp [toUnit]; omega }

theorem keepsDecls_addBytes (v : ByteArray) : b.KeepsDecls (b.addBytes v).1 :=
  KeepsDecls.trans (by exact ⟨rfl, rfl, rfl, rfl⟩) (keeps_index _ _ _).decls

/-! ### Locals, cells and free variables: the index narrowed, then the entry pushed -/

theorem addParam_registers (n : String) :
    Registers b (b.addParam n).1 "locals"
      ((b.addParam n).1.localNames[(b.addParam n).2]? = some n) := by
  rcases Nat.lt_or_ge b.localNames.size 65536 with h | h
  · exact .inl (by simp [addParam, index_of_lt b _ h])
  · exact .inr (by simp [addParam, index_of_le b _ h, fail_eq])

theorem fits_addParam (hb : b.Fits) (n : String) : (b.addParam n).1.Fits := by
  intro hn
  rcases Nat.lt_or_ge b.localNames.size 65536 with h | h
  · simp only [addParam, index_of_lt b _ h] at hn ⊢
    exact { hb hn with localNames := by simp [toUnit]; omega }
  · simp [addParam, index_of_le b _ h, fail_eq] at hn

theorem addParam_decls (n : String) :
    (b.addParam n).1.argCount = (b.argCount + 1) % 65536 ∧ (b.addParam n).1.flags = b.flags ∧
      (b.addParam n).1.cellNames = b.cellNames ∧ (b.addParam n).1.freeNames = b.freeNames := by
  have h := keeps_index b b.localNames.size "locals"
  exact ⟨by simp [addParam, h.argCount], h.flags, h.cellNames, h.freeNames⟩

theorem addVarargs_registers (n : String) :
    Registers b (b.addVarargs n).1 "locals"
      ((b.addVarargs n).1.localNames[(b.addVarargs n).2]? = some n) := by
  rcases Nat.lt_or_ge b.localNames.size 65536 with h | h
  · exact .inl (by simp [addVarargs, index_of_lt b _ h])
  · exact .inr (by simp [addVarargs, index_of_le b _ h, fail_eq])

theorem fits_addVarargs (hb : b.Fits) (n : String) : (b.addVarargs n).1.Fits := by
  intro hn
  rcases Nat.lt_or_ge b.localNames.size 65536 with h | h
  · simp only [addVarargs, index_of_lt b _ h] at hn ⊢
    exact { hb hn with localNames := by simp [toUnit]; omega }
  · simp [addVarargs, index_of_le b _ h, fail_eq] at hn

theorem addVarargs_decls (n : String) :
    (b.addVarargs n).1.argCount = b.argCount ∧
      (b.addVarargs n).1.flags = b.flags.union CodeFlags.varargs ∧
      (b.addVarargs n).1.cellNames = b.cellNames ∧ (b.addVarargs n).1.freeNames = b.freeNames := by
  have h := keeps_index b b.localNames.size "locals"
  exact ⟨h.argCount, by simp [addVarargs, h.flags], h.cellNames, h.freeNames⟩

theorem addLocal_registers (n : String) :
    Registers b (b.addLocal n).1 "locals"
      ((b.addLocal n).1.localNames[(b.addLocal n).2]? = some n) := by
  rcases h : b.localNames.idxOf? n with _ | i
  · rcases Nat.lt_or_ge b.localNames.size 65536 with hs | hs
    · exact .inl (by simp [addLocal, h, index_of_lt b _ hs])
    · exact .inr (by simp [addLocal, h, index_of_le b _ hs, fail_eq])
  · simp only [addLocal, h]
    exact registers_index b (by rfl) "locals" (fun b' j => b'.localNames[j]? = some n) fun _ =>
      Array.getElem?_of_idxOf? h

theorem fits_addLocal (hb : b.Fits) (n : String) : (b.addLocal n).1.Fits := by
  rcases h : b.localNames.idxOf? n with _ | i
  · intro hn
    rcases Nat.lt_or_ge b.localNames.size 65536 with hs | hs
    · simp only [addLocal, h, index_of_lt b _ hs] at hn ⊢
      exact { hb hn with localNames := by simp [toUnit]; omega }
    · simp [addLocal, h, index_of_le b _ hs, fail_eq] at hn
  · simp only [addLocal, h]
    exact fits_index b (by rfl) hb "locals" fun _ => id

theorem keepsDecls_addLocal (n : String) : b.KeepsDecls (b.addLocal n).1 := by
  have h := keeps_index b b.localNames.size "locals"
  unfold addLocal
  split
  · exact (keeps_index b _ _).decls
  · exact ⟨h.cellNames, h.freeNames, h.argCount, h.flags⟩

theorem paramCount_le (ha : b.argCount < 65536) : b.paramCount ≤ 65536 := by
  unfold paramCount
  split <;> omega

theorem addCellVar_error_of_le (h : 65536 ≤ b.cellNames.size) (n : String) :
    (b.addCellVar n).1.error = some (b.error.getD (.tooLarge "cells")) := by
  unfold addCellVar
  rw [index_of_le b _ h]
  dsimp only
  split
  · rename_i p _
    rcases Nat.lt_or_ge p 65536 with hp | hp
    · simp [index_of_lt _ _ hp, fail_eq]
    · simp [index_of_le _ _ hp, fail_eq]
  · simp [fail_eq]

/-- Declaring a cell, with the parameter count in range: its index is narrowed, then it is
pushed, and a parameter of its name is recorded to start it. -/
theorem addCellVar_registers (ha : b.argCount < 65536) (n : String) :
    Registers b (b.addCellVar n).1 "cells"
      ((b.addCellVar n).1.cellNames[(b.addCellVar n).2]? = some n) := by
  rcases Nat.lt_or_ge b.cellNames.size 65536 with h | h
  · left
    unfold addCellVar
    rw [index_of_lt b _ h]
    dsimp only
    split
    · rename_i p hp
      have hpc := paramCount_le { b with cellNames := b.cellNames.push n } ha
      have hp' := (Array.getElem?_eq_some_iff.1 (Array.getElem?_of_idxOf? hp)).1
      simp only [Array.size_extract] at hp'
      rw [index_of_lt _ _ (by omega)]
      simp
    · simp
  · exact .inr (addCellVar_error_of_le b h n)

/-- Declaring a cell pushes it and leaves the other tables, the parameter count and the flags as
they are. -/
theorem keeps_addCellVar (n : String) :
    Keeps { b with cellNames := b.cellNames.push n } (b.addCellVar n).1 := by
  unfold addCellVar
  rcases hc : b.index b.cellNames.size "cells" with ⟨b₁, cell⟩
  have h₁ : b.Keeps b₁ := by
    have := keeps_index b b.cellNames.size "cells"
    rwa [hc] at this
  have h₂ : Keeps { b with cellNames := b.cellNames.push n }
      { b₁ with cellNames := b₁.cellNames.push n } :=
    ⟨h₁.1, h₁.2, h₁.3, h₁.4, h₁.5, h₁.6, h₁.7, h₁.8, by simp [h₁.cellNames], h₁.10, h₁.11, h₁.12⟩
  dsimp only
  split
  · rename_i p _
    rcases hp : ({ b₁ with cellNames := b₁.cellNames.push n } : Builder).index p "locals" with
      ⟨b₃, p'⟩
    have h₃ := keeps_index { b₁ with cellNames := b₁.cellNames.push n } p "locals"
    rw [hp] at h₃
    exact (h₂.trans h₃).trans (by constructor <;> rfl)
  · exact h₂

theorem fits_addCellVar (hb : b.Fits) (hf : b.freeNames.size = 0) (n : String) :
    (b.addCellVar n).1.Fits := by
  have hk : Keeps { b with cellNames := b.cellNames.push n } (b.addCellVar n).1 :=
    keeps_addCellVar b n
  rcases Nat.lt_or_ge b.cellNames.size 65536 with h | h
  · have he : (b.addCellVar n).1.error = none → b.error = none :=
      error_none_of_extends (grows_addCellVar b n).toExtends
    refine hk.fits he fun hn => ?_
    exact { hb hn with cells := by simp [toUnit]; omega }
  · intro hn
    rw [addCellVar_error_of_le b h n] at hn
    cases hn

theorem addFreeVar_registers (n : String) :
    Registers b (b.addFreeVar n).1 "cells"
      (((b.addFreeVar n).1.cellNames ++ (b.addFreeVar n).1.freeNames)[(b.addFreeVar n).2]? =
        some n) := by
  rcases Nat.lt_or_ge (b.cellNames.size + b.freeNames.size) 65536 with h | h
  · exact .inl (by simp [addFreeVar, index_of_lt b _ h])
  · exact .inr (by simp [addFreeVar, index_of_le b _ h, fail_eq])

theorem fits_addFreeVar (hb : b.Fits) (n : String) : (b.addFreeVar n).1.Fits := by
  intro hn
  rcases Nat.lt_or_ge (b.cellNames.size + b.freeNames.size) 65536 with h | h
  · simp only [addFreeVar, index_of_lt b _ h] at hn ⊢
    exact { hb hn with cells := by simp [toUnit]; omega }
  · simp [addFreeVar, index_of_le b _ h, fail_eq] at hn

/-- A free variable is pushed after the cells and the free variables before it, and declares
nothing else. -/
theorem addFreeVar_decls (n : String) :
    (b.addFreeVar n).1.argCount = b.argCount ∧ (b.addFreeVar n).1.flags = b.flags ∧
      (b.addFreeVar n).1.cellNames = b.cellNames ∧
      (b.addFreeVar n).1.freeNames = b.freeNames.push n := by
  have h := keeps_index b (b.cellNames.size + b.freeNames.size) "cells"
  exact ⟨h.argCount, h.flags, h.cellNames, by simp [addFreeVar, h.freeNames]⟩

/-! ### Calls that register nothing -/

theorem keeps_adjust (offset : Nat) (effect : Int) : b.Keeps (b.adjust offset effect) := by
  unfold adjust
  dsimp only
  split
  · rw [fail_eq]
    constructor <;> rfl
  · constructor <;> rfl

theorem keeps_emitRaw (op : Opcode) (operands : List Nat) (effect : Int) :
    b.Keeps (b.emitRaw op operands effect) :=
  Keeps.trans (by constructor <;> rfl) (keeps_adjust _ _ _)

theorem keeps_emitLoadLocal (slot : Nat) : b.Keeps (b.emitLoadLocal slot) := by
  unfold emitLoadLocal
  split <;> exact keeps_emitRaw b _ _ _

theorem keeps_emitStoreLocal (slot : Nat) : b.Keeps (b.emitStoreLocal slot) := by
  unfold emitStoreLocal
  split <;> exact keeps_emitRaw b _ _ _

theorem keeps_emitJumpBack (target : Nat) : b.Keeps (b.emitJumpBack target) := by
  unfold emitJumpBack
  dsimp only
  split
  · exact keeps_emitRaw b _ _ _
  · exact (keeps_fail b _).trans (keeps_emitRaw _ _ _ _)

theorem keeps_patchJump (label : Nat) : b.Keeps (b.patchJump label) := by
  unfold patchJump
  dsimp only
  split
  · constructor <;> rfl
  · exact (keeps_fail b _).trans (by constructor <;> rfl)

theorem keeps_setLocation (line : Nat) : b.Keeps (b.setLocation line) := by
  unfold setLocation
  dsimp only
  split
  · split
    · constructor <;> rfl
    · split <;> constructor <;> rfl
  · constructor <;> rfl

/-! ### Loads: the value registered, then the instruction emitted -/

theorem Keeps.fits_of_extends {b b' : Builder} (h : b.Keeps b') (he : b.Extends b')
    (hb : b.Fits) : b'.Fits :=
  h.fits (error_none_of_extends he) hb

theorem fits_emitLoadInt (hb : b.Fits) (v : Int) : (b.emitLoadInt v).Fits := by
  unfold emitLoadInt
  split
  · exact (keeps_emitRaw b _ _ _).fits_of_extends (grows_emitRaw b _ _ _).toExtends hb
  · exact (keeps_emitRaw _ _ _ _).fits_of_extends (grows_emitRaw _ _ _ _).toExtends
      (fits_addInt b hb v)

theorem keepsDecls_emitLoadInt (v : Int) : b.KeepsDecls (b.emitLoadInt v) := by
  unfold emitLoadInt
  split
  · exact (keeps_emitRaw b _ _ _).decls
  · exact (keepsDecls_addInt b v).trans (keeps_emitRaw _ _ _ _).decls

theorem fits_emitLoadStr (hb : b.Fits) (v : String) : (b.emitLoadStr v).Fits :=
  (keeps_emitRaw _ _ _ _).fits_of_extends (grows_emitRaw _ _ _ _).toExtends (fits_addStr b hb v)

theorem keepsDecls_emitLoadStr (v : String) : b.KeepsDecls (b.emitLoadStr v) :=
  (keepsDecls_addStr b v).trans (keeps_emitRaw _ _ _ _).decls

theorem fits_emitLoadConst (hb : b.Fits) (v : Value) : (b.emitLoadConst v).Fits :=
  (keeps_emitRaw _ _ _ _).fits_of_extends (grows_emitRaw _ _ _ _).toExtends
    (fits_addConst b hb v)

theorem keepsDecls_emitLoadConst (v : Value) : b.KeepsDecls (b.emitLoadConst v) :=
  (keepsDecls_addConst b v).trans (keeps_emitRaw _ _ _ _).decls

/-! ### The tracked depth -/

theorem depth_adjust_nonneg (offset : Nat) (effect : Int) : 0 ≤ (b.adjust offset effect).depth := by
  unfold adjust
  dsimp only
  split
  · exact Int.le_refl 0
  · dsimp only
    omega

theorem adjust_error (offset : Nat) {effect : Int} (h : 0 ≤ b.depth + effect) :
    (b.adjust offset effect).error = b.error := by
  unfold adjust
  dsimp only
  rw [if_neg (by omega)]

theorem emitRaw_error (op : Opcode) (operands : List Nat) {effect : Int}
    (h : 0 ≤ b.depth + effect) : (b.emitRaw op operands effect).error = b.error :=
  adjust_error _ _ h

theorem depth_index (i : Nat) (what : String) : (b.index i what).1.depth = b.depth := by
  unfold index
  split
  · rfl
  · rw [fail_eq]

theorem depth_addLocal (n : String) : (b.addLocal n).1.depth = b.depth := by
  unfold addLocal
  split <;> exact depth_index _ _ _

theorem depth_addName (n : String) : (b.addName n).1.depth = b.depth := by
  unfold addName
  split <;> exact depth_index _ _ _

theorem depth_addInt (v : Int) : (b.addInt v).1.depth = b.depth := by
  unfold addInt
  split <;> exact depth_index _ _ _

theorem depth_addFloat (v : Float) : (b.addFloat v).1.depth = b.depth := by
  unfold addFloat
  split <;> exact depth_index _ _ _

theorem depth_addStr (v : String) : (b.addStr v).1.depth = b.depth := by
  unfold addStr
  split <;> exact depth_index _ _ _

theorem depth_addCellVar (n : String) : (b.addCellVar n).1.depth = b.depth := by
  unfold addCellVar
  rcases hc : b.index b.cellNames.size "cells" with ⟨b₁, cell⟩
  have h₁ : b₁.depth = b.depth := by
    have := depth_index b b.cellNames.size "cells"
    rwa [hc] at this
  dsimp only
  split
  · rename_i p _
    rcases hp : ({ b₁ with cellNames := b₁.cellNames.push n } : Builder).index p "locals" with
      ⟨b₃, p'⟩
    have h₃ := depth_index { b₁ with cellNames := b₁.cellNames.push n } p "locals"
    rw [hp] at h₃
    exact h₃.trans h₁
  · exact h₁

/-- A load of an integer, a string or a constant records nothing beyond its registration when
the tracked depth is not negative: it pushes one value. -/
theorem registers_emitLoadInt (hd : 0 ≤ b.depth) (v : Int) :
    Registers b (b.emitLoadInt v) "ints" True := by
  unfold emitLoadInt
  split
  · exact .inl ⟨emitRaw_error _ _ _ (by simp [Opcode.stackEffect]; omega), trivial⟩
  · have hd' : 0 ≤ (b.addInt v).1.depth +
        Opcode.loadInt.stackEffect ((b.addInt v).2 % 65536) 0 := by
      simp [Opcode.stackEffect, depth_addInt]
      omega
    rcases addInt_registers b v with ⟨he, -⟩ | he
    · exact .inl ⟨(emitRaw_error _ _ _ hd').trans he, trivial⟩
    · exact .inr ((emitRaw_error _ _ _ hd').trans he)

theorem registers_emitLoadStr (hd : 0 ≤ b.depth) (v : String) :
    Registers b (b.emitLoadStr v) "strings" True := by
  have hd' : 0 ≤ (b.addStr v).1.depth + Opcode.loadStr.stackEffect ((b.addStr v).2 % 65536) 0 := by
    simp [Opcode.stackEffect, depth_addStr]
    omega
  rcases addStr_registers b v with ⟨he, -⟩ | he
  · exact .inl ⟨(emitRaw_error _ _ _ hd').trans he, trivial⟩
  · exact .inr ((emitRaw_error _ _ _ hd').trans he)

theorem registers_emitLoadConst (hd : 0 ≤ b.depth) (v : Value) :
    Registers b (b.emitLoadConst v) "constants" True := by
  have hd' : 0 ≤ (b.addConst v).1.depth +
      Opcode.loadConst.stackEffect ((b.addConst v).2 % 65536) 0 := by
    simp only [Opcode.stackEffect]
    rw [show (b.addConst v).1.depth = b.depth from depth_index _ _ _]
    omega
  rcases addConst_registers b v with ⟨he, -⟩ | he
  · exact .inl ⟨(emitRaw_error _ _ _ hd').trans he, trivial⟩
  · exact .inr ((emitRaw_error _ _ _ hd').trans he)

end Operations

end Builder

end StackVm
