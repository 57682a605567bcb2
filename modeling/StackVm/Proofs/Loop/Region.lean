import Mathlib
import StackVm.Code.Validate
import StackVm.Loop.Compiled

/-! The region of a compiled loop.  `CompiledLoop.compile` decodes the instructions from the loop
header on, each one right after the one before, until the end of the back-edge; its operations
are these instructions in order, each with its jump resolved to the operation at the target or
to an exit there.  When the back-edge is an instruction of a checked unit, its target is one
too, the walk from the header passes the back-edge, and the last operation is the back-edge
itself, a jump to the first operation: a run of a compiled loop never falls off its end.
`Region` gathers these facts and `compile_region` proves them of every loop compiled at a
back-edge of a checked unit. -/

namespace StackVm

theorem Opcode.width_pos (op : Opcode) : 0 < op.width := by
  unfold Opcode.width
  omega

namespace CodeUnit

/-- `q` is reached from `p` by passing whole instructions. -/
inductive Reaches (u : CodeUnit) (p : Nat) : Nat → Prop
  | refl : Reaches u p p
  | next {q : Nat} {op : Opcode} : Reaches u p q → Opcode.ofByte? (u.byteAt q) = some op →
      Reaches u p (q + op.width)

namespace Reaches

variable {u : CodeUnit} {p q r : Nat}

theorem le (h : u.Reaches p q) : p ≤ q := by
  induction h with
  | refl => exact Nat.le_refl p
  | next _ _ ih => omega

theorem trans (h₁ : u.Reaches p q) (h₂ : u.Reaches q r) : u.Reaches p r := by
  induction h₂ with
  | refl => exact h₁
  | next _ hop ih => exact ih.next hop

theorem first {op : Opcode} (h : u.Reaches p q) (hop : Opcode.ofByte? (u.byteAt p) = some op) :
    q = p ∨ u.Reaches (p + op.width) q := by
  induction h with
  | refl => exact .inl rfl
  | @next q op' _ hop' ih =>
    rcases ih with rfl | hq
    · rw [hop] at hop'
      cases hop'
      exact .inr .refl
    · exact .inr (hq.next hop')

theorem total (ha : u.Reaches p q) (hb : u.Reaches p r) : u.Reaches q r ∨ u.Reaches r q := by
  induction hb with
  | refl => exact .inr ha
  | @next r op _ hop ih =>
    rcases ih with hqr | hrq
    · exact .inl (hqr.next hop)
    · rcases hrq.first hop with rfl | hq
      · exact .inl (Reaches.refl.next hop)
      · exact .inr hq

theorem of_le (ha : u.Reaches p q) (hb : u.Reaches p r) (hle : q ≤ r) : u.Reaches q r := by
  rcases ha.total hb with h | h
  · exact h
  · have : q = r := Nat.le_antisymm hle h.le
    subst this
    exact .refl

end Reaches

variable {u : CodeUnit}

/-! ### Instruction starts -/

theorem mem_startsFrom {fuel offset s : Nat} {acc out : Array Nat}
    (h : u.startsFrom fuel offset acc = .ok out) (hs : s ∈ out) :
    s ∈ acc ∨ (u.Reaches offset s ∧ s < u.bytecode.size) := by
  induction fuel generalizing offset acc with
  | zero =>
    simp only [startsFrom, Except.ok.injEq] at h
    exact .inl (h ▸ hs)
  | succ fuel ih =>
    unfold startsFrom at h
    split at h
    · next hlt =>
      dsimp only at h
      split at h
      · contradiction
      · next op hop =>
        split at h
        · contradiction
        · rcases ih h with hacc | ⟨hr, hsize⟩
          · rcases Array.mem_push.1 hacc with hacc | rfl
            · exact .inl hacc
            · exact .inr ⟨.refl, hlt⟩
          · exact .inr ⟨(Reaches.refl.next hop).trans hr, hsize⟩
    · simp only [Except.ok.injEq] at h
      exact .inl (h ▸ hs)

theorem reaches_of_mem_instructionStarts {starts : Array Nat} {s : Nat}
    (h : u.instructionStarts = .ok starts) (hs : s ∈ starts) :
    u.Reaches 0 s ∧ s < u.bytecode.size := by
  rcases mem_startsFrom h hs with hacc | hr
  · simp at hacc
  · exact hr

theorem mem_of_marked (l : List Nat) (a : Array Bool) (i : Nat)
    (h : (l.foldl (fun (acc : Array Bool) s => acc.set! s true) a)[i]?.getD false = true) :
    a[i]?.getD false = true ∨ i ∈ l := by
  induction l generalizing a with
  | nil => exact .inl h
  | cons s l ih =>
    rcases ih _ h with hi | hi
    · by_cases hs : s = i
      · exact .inr (hs ▸ List.mem_cons_self)
      · dsimp only at hi
        rw [Array.set!_eq_setIfInBounds, Array.getElem?_setIfInBounds_ne hs] at hi
        exact .inl hi
    · exact .inr (List.mem_cons_of_mem s hi)

theorem forIn_checks {α β ε : Type} (check : α → Except ε Unit) (next : α → β) :
    ∀ (xs : List α) (b r : β),
      forIn xs b (fun x _ => check x >>= fun _ => pure (ForInStep.yield (next x))) = .ok r →
      ∀ x ∈ xs, check x = .ok ()
  | [], _, _, _ => by simp
  | y :: ys, b, r, h => by
    rw [List.forIn_cons] at h
    cases hy : check y with
    | error e => simp [hy, bind, Except.bind] at h
    | ok _ =>
      simp only [hy, pure, Except.pure, bind, Except.bind] at h
      intro x hx
      rcases List.mem_cons.1 hx with rfl | hx
      · exact hy
      · exact forIn_checks check next ys _ r h x hx

theorem checkOperands_of_validate {isCode : Value → Bool} (hv : u.validate isCode = .ok ()) :
    ∃ starts, u.instructionStarts = .ok starts ∧ ∀ o ∈ starts,
      u.checkOperands isCode (fun i => (starts.foldl (fun (acc : Array Bool) s => acc.set! s true)
        (Array.replicate u.bytecode.size false))[i]?.getD false) o
        ((Opcode.ofByte? (u.byteAt o)).getD .nop) = .ok () := by
  unfold validate at hv
  simp only [bind, Except.bind] at hv
  split at hv
  · simp [throw, throwThe, MonadExceptOf.throw] at hv
  · split at hv
    · contradiction
    · split at hv
      · contradiction
      · next starts hs =>
        split at hv
        · contradiction
        · next r hr =>
          refine ⟨starts, hs, fun o ho => ?_⟩
          rw [← Array.forIn_toList] at hr
          have checks := forIn_checks (fun o => u.checkOperands isCode (fun i => (starts.foldl
              (fun (acc : Array Bool) (s : Nat) => acc.set! s true)
              (Array.replicate u.bytecode.size false))[i]?.getD false)
              o ((Opcode.ofByte? (u.byteAt o)).getD .nop))
            (fun o => some ((Opcode.ofByte? (u.byteAt o)).getD .nop)) starts.toList none r
          simp only [bind, Except.bind] at checks
          exact checks hr o (Array.mem_toList_iff.2 ho)

/-- In a checked unit, a back-edge at an instruction start jumps to an instruction start: the
walk from its target passes the back-edge. -/
theorem reaches_backEdge {isCode : Value → Bool} {b : Nat} (hv : u.validate isCode = .ok ())
    (hb : ∀ starts, u.instructionStarts = .ok starts → b ∈ starts)
    (hop : Opcode.ofByte? (u.byteAt b) = some .jumpBackward) :
    u.u16At (b + 1) ≤ b ∧ u.Reaches (b - u.u16At (b + 1)) b := by
  obtain ⟨starts, hs, hchecks⟩ := checkOperands_of_validate hv
  have hcheck := hchecks b (hb starts hs)
  simp only [hop, Option.getD_some, checkOperands, checkTarget] at hcheck
  split at hcheck
  · next hin =>
    split at hcheck
    · next hmark =>
      have hle : u.u16At (b + 1) ≤ b := by omega
      have htarget : ((b : Int) - u.u16At (b + 1)).toNat = b - u.u16At (b + 1) := by omega
      rw [htarget] at hmark
      have hmem : b - u.u16At (b + 1) ∈ starts := by
        rcases mem_of_marked starts.toList _ _ (by simpa [Array.foldl_toList] using hmark) with
          h | h
        · rw [Array.getElem?_replicate] at h
          split at h <;> simp at h
        · exact Array.mem_toList_iff.1 h
      refine ⟨hle, ?_⟩
      exact (reaches_of_mem_instructionStarts hs hmem).1.of_le
        (reaches_of_mem_instructionStarts hs (hb starts hs)).1 (Nat.sub_le _ _)
    · contradiction
  · contradiction

end CodeUnit

namespace LoopOp

/-- The operation with its jump sent to `T`; an operation without a jump is unchanged. -/
def retarget (x : LoopOp) (T : LoopTarget) : LoopOp :=
  match x with
  | .jump _ => .jump T
  | .jumpIfTrue _ => .jumpIfTrue T
  | .jumpIfFalse _ => .jumpIfFalse T
  | .forIter _ => .forIter T
  | other => other

/-- Where the operation jumps, if it jumps. -/
def target? : LoopOp → Option LoopTarget
  | .jump t | .jumpIfTrue t | .jumpIfFalse t | .forIter t => some t
  | _ => none

theorem retarget_of_target?_eq_none {x : LoopOp} (h : x.target? = none) (T : LoopTarget) :
    x.retarget T = x := by
  cases x <;> simp_all [target?, retarget]

theorem target?_retarget {x : LoopOp} {T T' : LoopTarget} (h : (x.retarget T).target? = some T') :
    T' = T ∧ x.target?.isSome := by
  cases x <;> simp_all [target?, retarget]

end LoopOp

namespace CompiledLoop

variable {u : CodeUnit} {fast : Bool}

/-- Where a resolved jump goes, against the offset its instruction names: the operation decoded
from that offset, or leaving the loop at it. -/
def Lands (c : CompiledLoop) : LoopTarget → Nat → Prop
  | .inside j, p => ∃ hj : j < c.ops.size, c.ops[j].1 = p
  | .exit q, p => q = p

theorem decodeAt_target {pc : Nat} {op : Opcode} {x : LoopOp} {t : Option Nat}
    (h : decodeAt u fast pc op = .ok (x, t)) : x.target?.isSome = t.isSome := by
  unfold decodeAt at h
  dsimp only at h
  split at h
  case h_17 o =>
    cases o <;> simp at h
    all_goals
      split at h
      · cases h
        rfl
      · cases h
  case h_18 =>
    split at h
    · cases h
      rfl
    · cases h
  case h_19 | h_20 | h_21 | h_22 | h_23 =>
    split at h
    · cases h
    · cases h
      rfl
  case h_24 => cases h
  all_goals
    cases h
    rfl

theorem decodeAt_forIter {pc : Nat} {op : Opcode} {T : LoopTarget} {t : Option Nat}
    (h : decodeAt u fast pc op = .ok (.forIter T, t)) : op = .forIter := by
  unfold decodeAt at h
  dsimp only at h
  split at h
  case h_17 o =>
    cases o <;> simp at h
    all_goals
      split at h <;> cases h
  case h_18 | h_19 | h_20 | h_21 | h_23 => split at h <;> cases h
  case h_22 => rfl
  all_goals cases h

/-- A jump resolved against the offsets of a region goes to the operation decoded from its
offset, or leaves at it. -/
theorem resolve_target {offsets : Array Nat} {header stop p : Nat} {x y : LoopOp}
    (h : resolve offsets header stop x (some p) = .ok y) :
    ∃ T, y = x.retarget T ∧
      ((∃ j, ∃ hj : j < offsets.size, T = .inside j ∧ offsets[j] = p) ∨ T = .exit p) := by
  simp only [resolve] at h
  split at h
  · split at h
    · next j hj =>
      simp only [indexOf, Array.findIdx?_eq_some_iff_getElem] at hj
      obtain ⟨hjs, hjp, -⟩ := hj
      cases h
      exact ⟨.inside j, by cases x <;> rfl, .inl ⟨j, hjs, rfl, by simpa using hjp⟩⟩
    · cases h
  · cases h
    exact ⟨.exit p, by cases x <;> rfl, .inr rfl⟩

/-! ### The decoded region -/

/-- The instructions from `pc` until the end `stop` of a region, each decoded with the offset its
jump names. -/
inductive Walk (u : CodeUnit) (fast : Bool) (stop : Nat) : Nat → List Decoded → Prop
  | done {pc : Nat} : stop ≤ pc → Walk u fast stop pc []
  | cons {pc : Nat} {op : Opcode} {x : LoopOp} {t : Option Nat} {rest : List Decoded} :
      pc < stop → Opcode.ofByte? (u.byteAt pc) = some op → pc + op.width ≤ u.bytecode.size →
      decodeAt u fast pc op = .ok (x, t) → Walk u fast stop (pc + op.width) rest →
      Walk u fast stop pc ((pc, x, t) :: rest)

theorem decodeFrom_walk {stop : Nat} : ∀ {fuel pc : Nat} {acc out : Array Decoded},
    stop - pc < fuel → decodeFrom u fast stop fuel pc acc = .ok out →
    ∃ ds, out.toList = acc.toList ++ ds ∧ Walk u fast stop pc ds
  | 0, _, _, _, hfuel, _ => absurd hfuel (Nat.not_lt_zero _)
  | fuel + 1, pc, acc, out, hfuel, h => by
    unfold decodeFrom at h
    split at h
    · next hlt =>
      split at h
      · contradiction
      · next op hop =>
        split at h
        · contradiction
        · next hfit =>
          simp only [bind, Except.bind] at h
          split at h
          · contradiction
          · next xt hdec =>
            have hw := op.width_pos
            obtain ⟨ds, hout, hwalk⟩ := decodeFrom_walk (by omega) h
            refine ⟨(pc, xt) :: ds, by simp [hout], ?_⟩
            exact .cons hlt hop (by omega) hdec hwalk
    · simp only [Except.ok.injEq] at h
      exact ⟨[], by simp [h], .done (by omega)⟩

namespace Walk

variable {stop pc : Nat} {ds : List Decoded}

theorem head (h : Walk u fast stop pc ds) (hne : 0 < ds.length) : ds[0].1 = pc := by
  cases h with
  | done => simp at hne
  | cons => rfl

theorem getElem (h : Walk u fast stop pc ds) (i : Nat) (hi : i < ds.length) :
    ∃ op, Opcode.ofByte? (u.byteAt ds[i].1) = some op ∧ ds[i].1 < stop ∧
      ds[i].1 + op.width ≤ u.bytecode.size ∧ decodeAt u fast ds[i].1 op = .ok ds[i].2 ∧
      (∀ hi' : i + 1 < ds.length, ds[i + 1].1 = ds[i].1 + op.width) ∧
      (i + 1 = ds.length → stop ≤ ds[i].1 + op.width) := by
  induction h generalizing i with
  | done => simp at hi
  | @cons pc op x t rest hlt hop hfit hdec hrest ih =>
    cases i with
    | zero =>
      refine ⟨op, hop, hlt, hfit, hdec, fun hi' => ?_, fun hlast => ?_⟩
      · exact hrest.head (by simpa using hi')
      · cases hrest with
        | done hstop => exact hstop
        | cons => simp at hlast
    | succ i =>
      obtain ⟨op', h1, h2, h3, h4, h5, h6⟩ := ih i (by simpa using hi)
      exact ⟨op', h1, h2, h3, h4, fun hi' => h5 (by simpa using hi'),
        fun hlast => h6 (by simpa using hlast)⟩

theorem mem_of_reaches (h : Walk u fast stop pc ds) {q : Nat} (hq : u.Reaches pc q)
    (hlt : q < stop) : ∃ i, ∃ hi : i < ds.length, ds[i].1 = q := by
  induction h with
  | done hstop => exact absurd (Nat.lt_of_lt_of_le hlt hstop) (by have := hq.le; omega)
  | @cons pc op x t rest _ hop _ _ _ ih =>
    rcases hq.first hop with rfl | hq'
    · exact ⟨0, by simp, rfl⟩
    · obtain ⟨i, hi, hiq⟩ := ih hq'
      exact ⟨i + 1, by simpa using hi, by simpa using hiq⟩

end Walk

theorem mapM_ok_getElem {α β ε : Type} (f : α → Except ε β) :
    ∀ {xs : List α} {ys : List β}, xs.mapM f = .ok ys →
      ys.length = xs.length ∧ ∀ i (hi : i < xs.length) (hi' : i < ys.length), f xs[i] = .ok ys[i]
  | [], ys, h => by
    simp only [List.mapM_nil, pure, Except.pure, Except.ok.injEq] at h
    subst h
    simp
  | x :: xs, ys, h => by
    rw [List.mapM_cons] at h
    cases hx : f x with
    | error e => simp [hx, bind, Except.bind] at h
    | ok y =>
      cases hxs : xs.mapM f with
      | error e => simp [hx, hxs, bind, Except.bind] at h
      | ok ys' =>
        simp only [hx, hxs, bind, Except.bind, pure, Except.pure, Except.ok.injEq] at h
        subst h
        obtain ⟨hlen, hget⟩ := mapM_ok_getElem f hxs
        refine ⟨by simp [hlen], fun i hi hi' => ?_⟩
        cases i with
        | zero => exact hx
        | succ i => exact hget i (by simpa using hi) (by simpa using hi')

/-- A successful compilation decodes the region from the header to the end of the back-edge
and resolves each decoded jump against the offsets of the region. -/
theorem compile_walk {header backEdge depth : Nat} {c : CompiledLoop}
    (h : compile u header backEdge depth fast = .ok c) :
    c.header = header ∧ c.entryDepth = depth ∧ header ≤ backEdge ∧
      ∃ ds, Walk u fast (backEdge + 3) header ds ∧ c.ops.size = ds.length ∧
        ∀ i (hi : i < ds.length) (hi' : i < c.ops.size), c.ops[i].1 = ds[i].1 ∧
          resolve (ds.map (·.1)).toArray header (backEdge + 3) ds[i].2.1 ds[i].2.2 =
            .ok c.ops[i].2 := by
  unfold compile at h
  simp only [bind, Except.bind] at h
  split at h
  · simp [throw, throwThe, MonadExceptOf.throw] at h
  · next hbounds =>
    split at h
    · contradiction
    · next decoded hdec =>
      split at h
      · contradiction
      · next ops hops =>
        simp only [pure, Except.pure, Except.ok.injEq] at h
        subst h
        have hstop : Opcode.jumpBackward.width = 3 := rfl
        obtain ⟨ds, hds, hwalk⟩ :=
          @decodeFrom_walk u fast (backEdge + Opcode.jumpBackward.width) _ _ _ _ (by omega) hdec
        simp only [List.nil_append] at hds
        rw [hstop] at hwalk
        have hoffsets : decoded.map (·.1) = (ds.map (·.1)).toArray := by
          rw [← hds]
          exact Array.ext' (by simp)
        rw [Array.mapM_eq_mapM_toList] at hops
        simp only [Functor.map, Except.map] at hops
        split at hops
        · contradiction
        · next l hmap =>
          simp only [Except.ok.injEq] at hops
          subst hops
          rw [hds] at hmap
          obtain ⟨hlen, hget⟩ := mapM_ok_getElem _ hmap
          refine ⟨rfl, rfl, by simp at hbounds; omega, ds, hwalk, by simpa using hlen,
            fun i hi hi' => ?_⟩
          have he := hget i hi (by simpa using hi')
          split at he
          · contradiction
          · next x hx =>
            simp only [pure, Except.pure, Except.ok.injEq] at he
            rw [List.getElem_toArray, ← he]
            exact ⟨rfl, by rw [← hoffsets, ← hstop]; exact hx⟩

/-- A compiled loop of a code unit as the compiler builds it: each operation is decoded from
the instruction at its offset, with its jump sent where the instruction's jump lands; the
operations follow each other in the code; and the last is the back-edge, a jump to the
first. -/
structure Region (u : CodeUnit) (fast : Bool) (c : CompiledLoop) : Prop where
  size_pos : 0 < c.ops.size
  header : c.ops[0].1 = c.header
  decoded : ∀ i (hi : i < c.ops.size), ∃ op x t,
    Opcode.ofByte? (u.byteAt c.ops[i].1) = some op ∧ decodeAt u fast c.ops[i].1 op = .ok (x, t) ∧
    (∃ T, c.ops[i].2 = x.retarget T) ∧
    (∀ T, c.ops[i].2.target? = some T → c.Lands T (t.getD 0)) ∧
    ∀ hi' : i + 1 < c.ops.size, c.ops[i + 1].1 = c.ops[i].1 + op.width
  last : c.ops[c.ops.size - 1].2 = .jump (.inside 0)

section Compile

variable {header b depth : Nat} {c : CompiledLoop} {ds : List Decoded}
  (hwalk : Walk u fast (b + 3) header ds) (hsize : c.ops.size = ds.length)
  (hops : ∀ i (hi : i < ds.length) (hi' : i < c.ops.size), c.ops[i].1 = ds[i].1 ∧
    resolve (ds.map (·.1)).toArray header (b + 3) ds[i].2.1 ds[i].2.2 = .ok c.ops[i].2)
include hwalk hsize hops

theorem decoded_of_walk (i : Nat) (hi : i < c.ops.size) : ∃ op x t,
    Opcode.ofByte? (u.byteAt c.ops[i].1) = some op ∧ decodeAt u fast c.ops[i].1 op = .ok (x, t) ∧
    (∃ T, c.ops[i].2 = x.retarget T) ∧
    (∀ T, c.ops[i].2.target? = some T → c.Lands T (t.getD 0)) ∧
    ∀ hi' : i + 1 < c.ops.size, c.ops[i + 1].1 = c.ops[i].1 + op.width := by
  have hid : i < ds.length := hsize ▸ hi
  obtain ⟨op, hop, -, -, hdec, hnext, -⟩ := hwalk.getElem i hid
  obtain ⟨hpc, hres⟩ := hops i hid hi
  have htarget := decodeAt_target hdec
  refine ⟨op, ds[i].2.1, ds[i].2.2, hpc ▸ hop, hpc ▸ hdec, ?_, ?_, fun hi' => ?_⟩
  · cases ht : ds[i].2.2 with
    | none =>
      rw [ht] at hres htarget
      simp only [resolve, Except.ok.injEq] at hres
      have hnone : ds[i].2.1.target? = none := by simpa using htarget
      exact ⟨.exit 0, by rw [LoopOp.retarget_of_target?_eq_none hnone, hres]⟩
    | some p =>
      rw [ht] at hres
      obtain ⟨T, hy, -⟩ := resolve_target hres
      exact ⟨T, hy⟩
  · intro T hT
    cases ht : ds[i].2.2 with
    | none =>
      rw [ht] at hres htarget
      simp only [resolve, Except.ok.injEq] at hres
      rw [← hres] at hT
      simp [hT] at htarget
    | some p =>
      rw [ht] at hres
      obtain ⟨T', hy, hlands⟩ := resolve_target hres
      rw [hy] at hT
      obtain ⟨rfl, -⟩ := LoopOp.target?_retarget hT
      rcases hlands with ⟨j, hj, rfl, hjp⟩ | rfl
      · have hjd : j < ds.length := by simpa using hj
        refine ⟨hsize ▸ hjd, ?_⟩
        rw [(hops j hjd (hsize ▸ hjd)).1]
        simpa using hjp
      · rfl
  · have hid' : i + 1 < ds.length := hsize ▸ hi'
    rw [(hops (i + 1) hid' hi').1, hnext hid', hpc]

theorem last_of_walk (hop : Opcode.ofByte? (u.byteAt b) = some .jumpBackward)
    (hle : u.u16At (b + 1) ≤ b) (hreach : u.Reaches header b)
    (hheader : header = b - u.u16At (b + 1)) (hpos : 0 < c.ops.size) :
    c.ops[c.ops.size - 1].2 = .jump (.inside 0) := by
  obtain ⟨i, hi, hib⟩ := hwalk.mem_of_reaches hreach (by omega)
  obtain ⟨op, hop', -, -, hdec, hnext, -⟩ := hwalk.getElem i hi
  rw [hib, hop] at hop'
  cases hop'
  have hlast : i + 1 = ds.length := by
    rcases Nat.lt_or_ge (i + 1) ds.length with hi' | hge
    · obtain ⟨-, -, hlt, -⟩ := hwalk.getElem (i + 1) hi'
      rw [hnext hi', hib] at hlt
      exact absurd hlt (by simp [Opcode.width, Opcode.operandLen])
    · omega
  obtain ⟨-, hres⟩ := hops i hi (by omega)
  rw [hib] at hdec
  have hd : ¬b < u.u16At (b + 1) := by omega
  simp only [decodeAt, hd, if_false, ← hheader] at hdec
  rw [← Except.ok.inj hdec] at hres
  have hindex : indexOf (ds.map (·.1)).toArray header = some 0 := by
    rw [indexOf, Array.findIdx?_eq_some_iff_getElem]
    refine ⟨by simp; omega, ?_, fun j hj => absurd hj (Nat.not_lt_zero j)⟩
    simp [hwalk.head (by omega)]
  have hin : header ≤ header ∧ header < b + 3 := ⟨Nat.le_refl _, by omega⟩
  simp only [resolve, hin, and_self, if_true, hindex, Except.map, Except.ok.injEq] at hres
  have hidx : c.ops.size - 1 = i := by omega
  simp only [hidx, ← hres]

end Compile

theorem Region.succ_lt {c : CompiledLoop} (hr : Region u fast c) {i : Nat} (hi : i < c.ops.size)
    (h : ∀ T, c.ops[i].2 ≠ .jump T) : i + 1 < c.ops.size := by
  rcases Nat.lt_or_ge (i + 1) c.ops.size with hlt | hge
  · exact hlt
  · have hlast : i = c.ops.size - 1 := by omega
    subst hlast
    exact absurd hr.last (h _)

/-- The loop compiled at a back-edge of a valid unit is a region of that unit. -/
theorem compile_region {isCode : Value → Bool} {b depth : Nat} {c : CompiledLoop}
    (hv : u.validate isCode = .ok ())
    (hb : ∀ starts, u.instructionStarts = .ok starts → b ∈ starts)
    (hop : Opcode.ofByte? (u.byteAt b) = some .jumpBackward)
    (h : compile u (b - u.u16At (b + 1)) b depth fast = .ok c) : Region u fast c := by
  obtain ⟨hle, hreach⟩ := CodeUnit.reaches_backEdge hv hb hop
  obtain ⟨hheader, -, -, ds, hwalk, hsize, hops⟩ := compile_walk h
  have hpos : 0 < c.ops.size := by
    obtain ⟨i, hi, -⟩ := hwalk.mem_of_reaches hreach (by omega)
    omega
  refine ⟨hpos, ?_, decoded_of_walk hwalk hsize hops,
    last_of_walk hwalk hsize hops hop hle hreach rfl hpos⟩
  rw [(hops 0 (by omega) hpos).1, hwalk.head (by omega), hheader]

end CompiledLoop

end StackVm
