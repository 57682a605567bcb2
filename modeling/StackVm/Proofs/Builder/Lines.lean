import StackVm.Proofs.Builder.Session

/-! The line table of a code unit.  A builder records the source line of the instructions it
emits from each location on: `setLocation` adds an entry at the current offset, replaces the last
entry when it already stands at that offset, and adds nothing when the line is the last one set.
A unit finds the line of an offset by halving its table.

On a table whose offsets strictly increase, the halving finds the last entry at or before the
offset (`CodeUnit.lineFor_eq`).  The table of a builder keeps increasing offsets, and an entry at
or before the start of an instruction is never touched again once the instruction is emitted: a
later location either adds an entry past it or replaces one past it.  So the main statement,
`line_table_round_trip`, says that for any calls on a builder whose build succeeds, the line of
each instruction is the last line set before it was emitted, or the first line of the unit. -/

namespace StackVm

namespace CodeUnit

/-! ### Finding the line of an offset -/

section Search

variable {lines : Array (Nat × Nat)} {o n : Nat}

/-- The halving search finds the number `n` of entries at or before the offset, when those are
the first `n`.  The induction is on the fuel; the undecided part `[base, base + size)` holds the
answer and is never wider than the fuel. -/
theorem linePoint_eq (hn : ∀ i (hi : i < lines.size), lines[i].1 ≤ o ↔ i < n) :
    ∀ fuel base size, base ≤ n → n ≤ base + size → base + size ≤ lines.size → size ≤ fuel →
      linePoint lines o fuel base size = n
  | 0, base, size, h₁, h₂, _, h₄ => by
    simp only [linePoint]
    omega
  | fuel + 1, base, size, h₁, h₂, h₃, h₄ => by
    simp only [linePoint]
    split
    · by_cases hb : base < lines.size
      · have := hn base hb
        rcases he : lines[base] with ⟨start, line⟩
        rw [Array.getElem?_eq_getElem hb, he]
        rw [he] at this
        dsimp only
        split
        · have := this.1 ‹_›
          omega
        · have := mt this.2 ‹_›
          omega
      · rw [Array.getElem?_eq_none (by omega)]
        dsimp only
        omega
    · have hmid : base + size / 2 < lines.size := by omega
      have := hn (base + size / 2) hmid
      rcases he : lines[base + size / 2] with ⟨start, line⟩
      rw [Array.getElem?_eq_getElem hmid, he]
      rw [he] at this
      dsimp only
      split
      · have := this.1 ‹_›
        exact linePoint_eq hn fuel (base + size / 2) (size - size / 2) (by omega) (by omega)
          (by omega) (by omega)
      · have := mt this.2 ‹_›
        exact linePoint_eq hn fuel base (size - size / 2) (by omega) (by omega) (by omega)
          (by omega)

end Search

section Sorted

variable {L : List (Nat × Nat)} {o : Nat}

theorem filter_eq_nil_of_lt {e : Nat × Nat} (hs : ∀ x ∈ L.map Prod.fst, e.1 < x) (he : o < e.1) :
    L.filter (·.1 ≤ o) = [] :=
  List.filter_eq_nil_iff.2 fun x hx => by
    have := hs x.1 (List.mem_map_of_mem hx)
    simp only [decide_eq_true_eq]
    omega

theorem le_iff_lt_length_filter (hs : (L.map Prod.fst).Pairwise (· < ·)) :
    ∀ i (hi : i < L.length), L[i].1 ≤ o ↔ i < (L.filter (·.1 ≤ o)).length := by
  induction L with
  | nil => intro i hi; cases hi
  | cons e L ih =>
    rw [List.map_cons, List.pairwise_cons] at hs
    intro i hi
    cases i with
    | zero =>
      by_cases he : e.1 ≤ o
      · simp [he]
      · simp [he, filter_eq_nil_of_lt hs.1 (Nat.lt_of_not_le he)]
    | succ i =>
      have hi' : i < L.length := by simpa using hi
      by_cases he : e.1 ≤ o
      · simp [he, ih hs.2 i hi']
      · have : e.1 < L[i].1 := hs.1 _ (List.mem_map_of_mem (List.getElem_mem hi'))
        simp [he, filter_eq_nil_of_lt hs.1 (Nat.lt_of_not_le he)]
        omega

theorem filter_eq_take (hs : (L.map Prod.fst).Pairwise (· < ·)) :
    L.filter (·.1 ≤ o) = L.take (L.filter (·.1 ≤ o)).length := by
  induction L with
  | nil => rfl
  | cons e L ih =>
    rw [List.map_cons, List.pairwise_cons] at hs
    by_cases he : e.1 ≤ o
    · simp [he, ← ih hs.2]
    · simp [he, filter_eq_nil_of_lt hs.1 (Nat.lt_of_not_le he)]

end Sorted

/-- On a table of increasing offsets, the line of an offset is that of the last entry at or
before it, or the first line when there is none. -/
theorem lineFor_eq {u : CodeUnit} (hs : (u.lines.toList.map Prod.fst).Pairwise (· < ·))
    (o : Nat) :
    u.lineFor o = ((u.lines.toList.filter (·.1 ≤ o)).getLast?.map Prod.snd).getD u.firstLine := by
  have hn : ∀ i (hi : i < u.lines.size),
      u.lines[i].1 ≤ o ↔ i < (u.lines.toList.filter (·.1 ≤ o)).length := fun i hi => by
    have := le_iff_lt_length_filter (o := o) hs i (by simpa using hi)
    rwa [Array.getElem_toList] at this
  have hle : (u.lines.toList.filter (·.1 ≤ o)).length ≤ u.lines.size := by
    simpa using List.length_filter_le _ u.lines.toList
  unfold lineFor
  split
  · next h0 =>
    have : u.lines.toList = [] := by simpa using h0
    simp [this]
  · rw [linePoint_eq hn u.lines.size 0 u.lines.size (Nat.zero_le _) (by omega) (by omega)
      (Nat.le_refl _), filter_eq_take hs, List.length_take, Nat.min_eq_left (by simpa using hle)]
    split
    · next h => simp [h]
    · next n h =>
      rw [List.getLast?_take, if_neg (by omega), h, Nat.succ_sub_one, Array.getElem?_toList]
      have : n < u.lines.size := by omega
      simp [Array.getElem?_eq_getElem this]

end CodeUnit

namespace Builder

/-! ### The table a builder keeps -/

/-- The line a call sets, if it is a location. -/
def Call.location? : Call → Option Nat
  | .setLocation line => some line
  | _ => none

/-- Whether a call emits an instruction. -/
def Call.emits : Call → Bool
  | .emit _ | .emitU8 .. | .emitI8 .. | .emitU16 .. | .emitU16U8 .. | .emitLoadInt _
  | .emitLoadLocal _ | .emitStoreLocal _ | .emitLoadStr _ | .emitLoadConst _ | .emitJump _
  | .emitJumpBack _ => true
  | _ => false

/-- The lines set by a list of calls, in order. -/
def locations (cs : List Call) : List Nat := cs.filterMap Call.location?

@[simp] theorem locations_append (cs cs' : List Call) :
    locations (cs ++ cs') = locations cs ++ locations cs' :=
  List.filterMap_append

theorem offset_lt_emitRaw (b : Builder) (op : Opcode) (operands : List Nat) (effect : Int) :
    b.offset < (b.emitRaw op operands effect).offset := by
  simp [offset_eq_length, emitRaw_code]

namespace Session

/-- No call but a location touches the line table or the first line: every other call only
changes other fields, also when it records an error. -/
theorem lines_call (s : Session) {c : Call} (hc : c.location? = none) :
    (s.call c).builder.lines = s.builder.lines ∧
      (s.call c).builder.firstLine = s.builder.firstLine := by
  cases c <;> simp only [Call.location?, reduceCtorEq] at hc <;>
    simp only [call, setFlags, addParam, addVarargs, addLocal, addCellVar, addFreeVar, addName,
      addConst, addInt, addFloat, addBigInt, addStr, addBytes, setStackDepth, emit, emitU8,
      emitI8, emitU16, emitU16U8, emitLoadInt, emitLoadLocal, emitStoreLocal, emitLoadStr,
      emitLoadConst, emitJump, emitJumpBack, addHandler, emitRaw, adjust, index, patchJump] <;>
    (repeat' split) <;> simp [fail_eq]

theorem offset_lt_call (s : Session) {c : Call} (hc : c.emits = true) :
    s.builder.offset < (s.call c).builder.offset := by
  have hlt := offset_lt_emitRaw
  cases c <;> simp only [Call.emits, Bool.false_eq_true] at hc
  case emit | emitU8 | emitI8 | emitU16 | emitU16U8 | emitJump => exact hlt _ _ _ _
  case emitLoadLocal slot | emitStoreLocal slot =>
    show s.builder.offset < (if slot < 256 then _ else _ : Builder).offset
    split <;> exact hlt _ _ _ _
  case emitLoadInt v =>
    show s.builder.offset < (s.builder.emitLoadInt v).offset
    unfold emitLoadInt
    split
    · exact hlt _ _ _ _
    · exact Nat.lt_of_le_of_lt (s.builder.grows_addInt v).toExtends.offset (hlt _ _ _ _)
  case emitLoadStr v =>
    exact Nat.lt_of_le_of_lt (s.builder.grows_addStr v).toExtends.offset (hlt _ _ _ _)
  case emitLoadConst v =>
    exact Nat.lt_of_le_of_lt (s.builder.grows_addConst v).toExtends.offset (hlt _ _ _ _)
  case emitJumpBack target =>
    show s.builder.offset < (s.builder.emitJumpBack target).offset
    unfold emitJumpBack
    dsimp only
    split
    · exact hlt _ _ _ _
    · exact Nat.lt_of_le_of_lt (s.builder.grows_fail _).toExtends.offset (hlt _ _ _ _)

end Session

/-- The line table of a builder after the calls `cs`: its offsets strictly increase and none lies
past the code, its last line is the last one set and its first line the first one set. -/
structure LinesFollow (b : Builder) (cs : List Call) : Prop where
  sorted : (b.lines.toList.map Prod.fst).Pairwise (· < ·)
  le_offset : ∀ e ∈ b.lines.toList, e.1 ≤ b.offset
  last : b.lines.toList.getLast?.map Prod.snd = (locations cs).getLast?
  first : b.firstLine = (locations cs).head?

section Location

variable {b : Builder} {cs : List Call}

theorem lt_of_mem_pop {lines : Array (Nat × Nat)} (hs : (lines.toList.map Prod.fst).Pairwise (· < ·))
    {e : Nat × Nat} (he : lines.back? = some e) : ∀ x ∈ lines.pop.toList, x.1 < e.1 := by
  have hsplit : lines.toList = lines.pop.toList ++ [e] := by
    obtain ⟨ys, hys⟩ := List.getLast?_eq_some_iff.1 (by rw [Array.getLast?_toList]; exact he)
    rw [Array.toList_pop, hys, List.dropLast_concat]
  rw [hsplit, List.map_append, List.pairwise_append] at hs
  intro x hx
  exact hs.2.2 x.1 (List.mem_map_of_mem hx) e.1 (by simp)

theorem offset_setLocation (line : Nat) : (b.setLocation line).offset = b.offset := by
  unfold setLocation
  dsimp only
  split
  · split
    · rfl
    · split <;> rfl
  · rfl

theorem firstLine_setLocation (line : Nat) :
    (b.setLocation line).firstLine = some (b.firstLine.getD line) := by
  unfold setLocation
  dsimp only
  split
  · split
    · rfl
    · split <;> rfl
  · rfl

/-- What a location does to the table: nothing when the line is the last one set, a replacement
of the last entry when that stands at the current offset, a new entry otherwise. -/
theorem lines_setLocation (line : Nat) :
    ((b.setLocation line).lines = b.lines ∧ b.lines.back?.map Prod.snd = some line) ∨
    (b.lines.back?.map Prod.fst = some b.offset ∧
      (b.setLocation line).lines = b.lines.pop.push (b.offset, line)) ∨
    (b.lines.back?.map Prod.fst ≠ some b.offset ∧
      (b.setLocation line).lines = b.lines.push (b.offset, line)) := by
  unfold setLocation
  dsimp only
  split
  · next lastOffset lastLine hback =>
    split
    · next h => exact .inl ⟨rfl, by simp [hback, h]⟩
    · split
      · next h => exact .inr (.inl ⟨by simp [hback, h, offset], rfl⟩)
      · next h => exact .inr (.inr ⟨by simp [hback, offset]; exact h, rfl⟩)
  · next hback => exact .inr (.inr ⟨by simp [hback], rfl⟩)

theorem toList_eq_pop_append {lines : Array (Nat × Nat)} {e : Nat × Nat}
    (he : lines.back? = some e) : lines.toList = lines.pop.toList ++ [e] := by
  obtain ⟨ys, hys⟩ := List.getLast?_eq_some_iff.1 (by rw [Array.getLast?_toList]; exact he)
  rw [Array.toList_pop, hys, List.dropLast_concat]

theorem lt_of_back_ne (hb : b.LinesFollow cs) (hne : b.lines.back?.map Prod.fst ≠ some b.offset) :
    ∀ x ∈ b.lines.toList, x.1 < b.offset := by
  intro x hx
  have hle := hb.le_offset x hx
  cases hback : b.lines.back? with
  | none =>
    rw [← Array.getLast?_toList, List.getLast?_eq_none_iff] at hback
    rw [hback] at hx
    cases hx
  | some e =>
    have he : e.1 ≠ b.offset := fun h => hne (by simp [hback, h])
    have hel := hb.le_offset e (by rw [toList_eq_pop_append hback]; simp)
    rw [toList_eq_pop_append hback, List.mem_append] at hx
    rcases hx with hx | hx
    · have := lt_of_mem_pop hb.sorted hback x hx
      omega
    · rw [List.mem_singleton] at hx
      subst hx
      omega

theorem linesFollow_setLocation (hb : b.LinesFollow cs) (line : Nat) :
    (b.setLocation line).LinesFollow (cs ++ [.setLocation line]) := by
  have hfirst : (b.setLocation line).firstLine = (locations (cs ++ [.setLocation line])).head? := by
    rw [firstLine_setLocation, hb.first, locations_append, List.head?_append]
    cases (locations cs).head? <;> rfl
  have hlast : (locations (cs ++ [.setLocation line])).getLast? = some line := by
    simp [locations, Call.location?]
  rcases lines_setLocation (b := b) line with ⟨hl, hback⟩ | ⟨hback, hl⟩ | ⟨hne, hl⟩
  · refine ⟨hl ▸ hb.sorted, ?_, ?_, hfirst⟩
    · rw [hl, offset_setLocation]
      exact hb.le_offset
    · rw [hl, Array.getLast?_toList, hlast]
      exact hback
  · obtain ⟨e, he, heo⟩ := Option.map_eq_some_iff.1 hback
    have hpop := lt_of_mem_pop hb.sorted he
    refine ⟨?_, ?_, by rw [hlast]; simp [hl], hfirst⟩
    · rw [hl, Array.toList_push, List.map_append, List.pairwise_append]
      refine ⟨?_, by simp, ?_⟩
      · rw [Array.toList_pop, List.map_dropLast]
        exact hb.sorted.sublist (List.dropLast_sublist _)
      · intro x hx y hy
        obtain ⟨z, hz, rfl⟩ := List.mem_map.1 hx
        simp only [List.map_cons, List.map_nil, List.mem_singleton] at hy
        have := hpop z hz
        omega
    · rw [hl, offset_setLocation, Array.toList_push]
      intro x hx
      rcases List.mem_append.1 hx with hx | hx
      · exact hb.le_offset x ((List.dropLast_sublist _).subset (Array.toList_pop ▸ hx))
      · rw [List.mem_singleton] at hx
        subst hx
        exact Nat.le_refl _
  · have hlt := lt_of_back_ne hb hne
    refine ⟨?_, ?_, by rw [hlast]; simp [hl], hfirst⟩
    · rw [hl, Array.toList_push, List.map_append, List.pairwise_append]
      refine ⟨hb.sorted, by simp, ?_⟩
      intro x hx y hy
      obtain ⟨z, hz, rfl⟩ := List.mem_map.1 hx
      simp only [List.map_cons, List.map_nil, List.mem_singleton] at hy
      have := hlt z hz
      omega
    · rw [hl, offset_setLocation, Array.toList_push]
      intro x hx
      rcases List.mem_append.1 hx with hx | hx
      · exact hb.le_offset x hx
      · rw [List.mem_singleton] at hx
        subst hx
        exact Nat.le_refl _

theorem filter_setLocation {o : Nat} (ho : o < b.offset) (line : Nat) :
    (b.setLocation line).lines.toList.filter (·.1 ≤ o) = b.lines.toList.filter (·.1 ≤ o) := by
  rcases lines_setLocation (b := b) line with ⟨hl, -⟩ | ⟨hback, hl⟩ | ⟨-, hl⟩
  · rw [hl]
  · obtain ⟨e, he, heo⟩ := Option.map_eq_some_iff.1 hback
    rw [hl, toList_eq_pop_append he, Array.toList_push, List.filter_append, List.filter_append]
    simp [heo, Nat.not_le.2 ho]
  · rw [hl, Array.toList_push, List.filter_append]
    simp [Nat.not_le.2 ho]

end Location

theorem Call.location?_of_emits {c : Call} (hc : c.emits = true) : c.location? = none := by
  cases c <;> first | rfl | cases hc

namespace Session

theorem linesFollow_call {s : Session} {cs : List Call} (hs : s.builder.LinesFollow cs)
    (c : Call) : (s.call c).builder.LinesFollow (cs ++ [c]) := by
  cases hc : c.location? with
  | some line =>
    cases c <;> simp only [Call.location?, reduceCtorEq] at hc
    exact linesFollow_setLocation hs _
  | none =>
    obtain ⟨hl, hf⟩ := s.lines_call hc
    have hloc : locations (cs ++ [c]) = locations cs := by simp [locations, hc]
    refine ⟨hl ▸ hs.sorted, fun x hx => ?_, ?_, ?_⟩
    · exact Nat.le_trans (hs.le_offset x (hl ▸ hx)) (s.extends_call c).offset
    · rw [hl, hloc]
      exact hs.last
    · rw [hf, hloc]
      exact hs.first

theorem linesFollow_run {s : Session} {cs₀ : List Call} (hs : s.builder.LinesFollow cs₀)
    (cs : List Call) : (s.run cs).builder.LinesFollow (cs₀ ++ cs) := by
  induction cs generalizing s cs₀ with
  | nil => simpa using hs
  | cons c cs ih =>
    rw [run_cons, ← List.singleton_append, ← List.append_assoc]
    exact ih (linesFollow_call hs c)

theorem linesFollow_new_run (name : String) (cs : List Call) :
    ((new name).run cs).builder.LinesFollow cs := by
  have hstart : (new name).builder.LinesFollow [] :=
    ⟨List.Pairwise.nil, fun _ h => absurd h List.not_mem_nil, rfl, rfl⟩
  simpa using linesFollow_run hstart cs

theorem filter_lines_call {s : Session} {o : Nat} (ho : o < s.builder.offset) (c : Call) :
    (s.call c).builder.lines.toList.filter (·.1 ≤ o) =
      s.builder.lines.toList.filter (·.1 ≤ o) := by
  cases hc : c.location? with
  | some line =>
    cases c <;> simp only [Call.location?, reduceCtorEq] at hc
    exact filter_setLocation ho _
  | none => rw [(s.lines_call hc).1]

theorem filter_lines_run {s : Session} {o : Nat} (ho : o < s.builder.offset) (cs : List Call) :
    (s.run cs).builder.lines.toList.filter (·.1 ≤ o) =
      s.builder.lines.toList.filter (·.1 ≤ o) := by
  induction cs generalizing s with
  | nil => rfl
  | cons c cs ih =>
    rw [run_cons, ih (Nat.lt_of_lt_of_le ho (s.extends_call c).offset), filter_lines_call ho]

end Session

/-- The line table of a built unit: for any calls on a builder whose build succeeds, the table's
offsets strictly increase, the first line is the first one set (`1` when none is), and the line of
each instruction is the last one set before the instruction was emitted, or the first line when
none was. -/
theorem line_table_round_trip {name : String} {cs : List Call} {isCode : Value → Bool}
    {u : CodeUnit} (h : ((Session.new name).run cs).builder.build isCode = .ok u) :
    (u.lines.toList.map Prod.fst).Pairwise (· < ·) ∧
    u.firstLine = (locations cs).head?.getD 1 ∧
    ∀ j (hj : j < cs.length), cs[j].emits = true →
      u.lineFor ((Session.new name).run (cs.take j)).builder.offset =
        (locations (cs.take j)).getLast?.getD u.firstLine := by
  obtain ⟨-, -, rfl, -⟩ := build_ok h
  have hf := Session.linesFollow_new_run name cs
  refine ⟨hf.sorted, by simp [toUnit, hf.first], fun j hj he => ?_⟩
  have hrun : (Session.new name).run cs =
      (((Session.new name).run (cs.take j)).call cs[j]).run (cs.drop (j + 1)) := by
    have hcs : cs.take j ++ cs[j] :: cs.drop (j + 1) = cs := by
      rw [← List.drop_eq_getElem_cons hj, List.take_append_drop]
    rw [← Session.run_cons, ← Session.run_append, hcs]
  have h₀ := Session.linesFollow_new_run name (cs.take j)
  have hfilter : ((Session.new name).run cs).builder.lines.toList.filter
      (·.1 ≤ ((Session.new name).run (cs.take j)).builder.offset) =
        ((Session.new name).run (cs.take j)).builder.lines.toList := by
    rw [hrun, Session.filter_lines_run (Session.offset_lt_call _ he),
      (Session.lines_call _ (Call.location?_of_emits he)).1,
      List.filter_eq_self.2 fun x hx => decide_eq_true (h₀.le_offset x hx)]
  show (toUnit _ _).lineFor _ = _
  rw [CodeUnit.lineFor_eq hf.sorted]
  simp only [toUnit]
  rw [hfilter, h₀.last]

/-- A repeated line adds no entry: locations at lines 3, 3 and 4 before three instructions give
the first line 3, the line 3 to the second instruction and 4 to the third. -/
theorem line_table_merges_repeats :
    ∃ u, ((Session.new "f").run [.setLocation 3, .emit .nop, .setLocation 3, .emit .nop,
        .setLocation 4, .emit .returnNone]).builder.build (fun _ => false) = .ok u ∧
      u.firstLine = 3 ∧ u.lineFor 1 = 3 ∧ u.lineFor 2 = 4 := by
  have h : ((Session.new "f").run [.setLocation 3, .emit .nop, .setLocation 3, .emit .nop,
      .setLocation 4, .emit .returnNone]).builder.build (fun _ => false) =
      .ok (((Session.new "f").run [.setLocation 3, .emit .nop, .setLocation 3, .emit .nop,
        .setLocation 4, .emit .returnNone]).builder.toUnit 0) := by
    refine build_eq_ok rfl (by decide) ?_
    have hh : ((Session.new "f").run [.setLocation 3, .emit .nop, .setLocation 3, .emit .nop,
        .setLocation 4, .emit .returnNone]).builder.handlers = #[] := rfl
    simp only [toUnit, hh, List.mergeSort_nil, Array.toList_empty]
    rfl
  obtain ⟨-, hfirst, hline⟩ := line_table_round_trip h
  exact ⟨_, h, hfirst, hline 3 (by decide) rfl, hline 5 (by decide) rfl⟩

end Builder

end StackVm
