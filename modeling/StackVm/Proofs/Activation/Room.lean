import StackVm.Proofs.Activation.Height

/-! The room an instruction needs on the operand stack.  `Act.Room x n d hi` says that every run
of `x` that finishes keeps the frame's code, moves its next offset by `n` and its operand stack
by `d`; and that a run started with room for `hi` more values that fails stops with the stack at
most `hi` above where it began, and fails on an overflow only with the stack not full.  A push of
the frame fails exactly on a full stack and leaves it so (`push_of_full`), which makes the last
clause say that none of the frame's own pushes overflowed: an overflow with room left comes
from an activation run inside this one.

The primitives take their values off the stack before they push, so an instruction needs room
for its stack effect, when that is positive, and for nothing otherwise.  The only machine
computations it runs before taking a value off are ones that never fail on a stack: raising
an exception, and reading or changing one object of the store. -/

namespace StackVm

/-- A fault of an operand stack that had no room for one more value. -/
def Fault.IsOverflow (e : Fault) : Prop := ∃ code offset, e = .internal (.stackOverflow code offset)

/-- A step that hands a value out of its frame. -/
def StepResult.IsYield (r : StepResult) : Prop := ∃ v, r = .exit (.yield v)

theorem StepResult.not_isYield_next : ¬ StepResult.next.IsYield := by
  rintro ⟨v, h⟩
  cases h

theorem StepResult.not_isYield_ret (v : Value) : ¬ (StepResult.exit (.ret v)).IsYield := by
  rintro ⟨w, h⟩
  cases h

/-- A machine computation that never fails with an overflow. -/
def Vm.Quiet {α : Type} (x : Vm α) : Prop := ∀ m e m', x m = .error e m' → ¬ e.IsOverflow

theorem Fault.not_isOverflow_internal (msg : String) :
    ¬ (Fault.internal (.malformed msg)).IsOverflow := by
  rintro ⟨c, o, h⟩
  cases h

theorem Fault.not_isOverflow_raise (a : Addr) : ¬ (Fault.raise a).IsOverflow := by
  rintro ⟨c, o, h⟩
  cases h

namespace Vm

variable {α : Type}

theorem quiet_modifyObj (a : Addr) (g : Obj → Obj) : Quiet (modifyObj a g) := by
  intro m e m' h
  cases h

theorem quiet_raise (r : Raise) : Quiet (raise r : Vm α) := by
  intro m e m' h
  cases h
  exact Fault.not_isOverflow_raise _

theorem quiet_obj_bind {f : Obj → Vm α} (hf : ∀ o, Quiet (f o)) (a : Addr) :
    Quiet (obj a >>= f) := by
  intro m e m' h
  cases hget : m.heap.get? a with
  | none =>
    simp only [obj, Bind.bind, EStateM.bind, get, getThe, MonadStateOf.get, EStateM.get, hget] at h
    cases h
    exact Fault.not_isOverflow_internal _
  | some o =>
    have hrun : (obj a >>= f) m = f o m := by
      simp only [obj, Bind.bind, EStateM.bind, get, getThe, MonadStateOf.get, EStateM.get, hget]
      rfl
    exact hf o m e m' (hrun ▸ h)

end Vm

namespace Act

variable {α β : Type} {k : Kit}

/-- How far one run of `x` from `s` goes: finished, it keeps the frame's code and moves its next
offset by `n` and its operand stack by `d`; failed, after starting with room for `hi` more
values, it ends at most `hi` above its start, and on an overflow only with room left. -/
structure RoomAt (x : Act α) (s : Active) (n d hi : Int) : Prop where
  ok : ∀ a t, x s = .ok a t → t.frame.code = s.frame.code ∧
    (t.frame.pc : Int) = s.frame.pc + n ∧ (t.frame.stack.size : Int) = s.frame.stack.size + d
  error : ∀ e t, x s = .error e t → s.frame.stack.size + hi ≤ s.frame.unit.stackSize →
    t.frame.code = s.frame.code ∧ (t.frame.stack.size : Int) ≤ s.frame.stack.size + hi ∧
      (e.IsOverflow → t.frame.stack.size < t.frame.unit.stackSize)

/-- `RoomAt` from every activation. -/
def Room (x : Act α) (n d hi : Int) : Prop := ∀ s, RoomAt x s n d hi

variable {x : Act α} {f : α → Act β} {s : Active} {n d hi n₁ d₁ : Int}

theorem RoomAt.bind (hx : RoomAt x s n₁ d₁ hi)
    (hf : ∀ a t, x s = .ok a t → RoomAt (f a) t (n - n₁) (d - d₁) (hi - d₁)) :
    RoomAt (x >>= f) s n d hi := by
  constructor
  · intro b u h
    obtain ⟨a, t, hxs, hft⟩ := EStateM.ok_of_bind_ok h
    obtain ⟨hc₁, hp₁, hs₁⟩ := hx.ok a t hxs
    obtain ⟨hc₂, hp₂, hs₂⟩ := (hf a t hxs).ok b u hft
    exact ⟨hc₂.trans hc₁, by omega, by omega⟩
  · intro e u h hroom
    cases hxs : x s with
    | ok a t =>
      rw [EStateM.run_bind_of_ok hxs] at h
      obtain ⟨hc₁, -, hs₁⟩ := hx.ok a t hxs
      have hunit : t.frame.unit = s.frame.unit := by simp [Frame.unit, hc₁]
      obtain ⟨hc₂, hle, hov⟩ := (hf a t hxs).error e u h (by rw [hunit]; omega)
      exact ⟨hc₂.trans hc₁, by omega, hov⟩
    | error e' t =>
      rw [EStateM.run_bind_of_error hxs] at h
      cases h
      exact hx.error e u hxs hroom

theorem RoomAt.of_run {y : Act α} {s' : Active} {m : Nat} (h : x s = y s')
    (hc : s'.frame.code = s.frame.code) (hpc : s'.frame.pc = s.frame.pc + m)
    (hst : s'.frame.stack = s.frame.stack) (hy : RoomAt y s' (n - m) d hi) :
    RoomAt x s n d hi := by
  have hunit : s'.frame.unit = s.frame.unit := by simp [Frame.unit, hc]
  constructor
  · intro a t hxs
    obtain ⟨hc', hp', hs'⟩ := hy.ok a t (h ▸ hxs)
    exact ⟨hc'.trans hc, by omega, by rw [hs', hst]⟩
  · intro e t hxs hroom
    obtain ⟨hc', hle, hov⟩ := hy.error e t (h ▸ hxs) (by rw [hst, hunit]; exact hroom)
    exact ⟨hc'.trans hc, by rw [hst] at hle; exact hle, hov⟩

namespace Room

theorem of_le {n' d' hi' : Int} (hx : Room x n' d' hi') (hn : n' = n) (hd : d' = d)
    (hh : hi' ≤ hi) : Room x n d hi := by
  subst hn hd
  refine fun s => ⟨(hx s).ok, fun e t hst hroom => ?_⟩
  obtain ⟨hc, hle, hov⟩ := (hx s).error e t hst (by omega)
  exact ⟨hc, by omega, hov⟩

theorem bind (hx : Room x n₁ d₁ hi) (hf : ∀ a, Room (f a) (n - n₁) (d - d₁) (hi - d₁)) :
    Room (x >>= f) n d hi :=
  fun s => (hx s).bind fun a t _ => hf a t

theorem ite {c : Prop} [Decidable c] {y z : Act β} (hy : c → Room y n d hi)
    (hz : ¬ c → Room z n d hi) : Room (if c then y else z) n d hi := by
  split
  · exact hy ‹_›
  · exact hz ‹_›

/-- A computation that leaves the frame as it was, finished or failed, fails with no overflow
of the frame when there is room for one value. -/
theorem of_frame (h : ∀ s, (x s).state.frame = s.frame) : Room x 0 0 1 := by
  intro s
  constructor
  · intro a t hst
    have ht : t.frame = s.frame := by simpa only [hst, EStateM.Result.state_ok] using h s
    simp [ht]
  · intro e t hst hroom
    have ht : t.frame = s.frame := by simpa only [hst, EStateM.Result.state_error] using h s
    rw [ht]
    exact ⟨rfl, by omega, fun _ => by omega⟩

theorem of_frame_quiet (h : ∀ s, (x s).state.frame = s.frame)
    (hq : ∀ s e t, x s = .error e t → ¬ e.IsOverflow) : Room x 0 0 0 := by
  intro s
  refine ⟨(of_frame h s).ok, fun e t hst _ => ?_⟩
  have ht : t.frame = s.frame := by simpa only [hst, EStateM.Result.state_error] using h s
  rw [ht]
  exact ⟨rfl, by omega, fun ho => absurd ho (hq s e t hst)⟩

theorem pure {a : β} : Room (Pure.pure a : Act β) 0 0 0 :=
  of_frame_quiet (fun _ => rfl) fun _ _ _ h => by cases h

theorem throw {e : Fault} (he : ¬ e.IsOverflow) : Room (MonadExcept.throw e : Act β) n d 0 := by
  refine fun s => ⟨fun b t h => ?_, fun e' t h _ => ?_⟩
  · cases h
  · cases h
    exact ⟨rfl, by omega, fun h => absurd h he⟩

theorem of_never {y : Act β} (hy : ∀ s b t, y s ≠ .ok b t) (he : Room y 0 0 hi) :
    Room y n d hi :=
  fun s => ⟨fun b t h => absurd h (hy s b t), (he s).error⟩

theorem bind_of_never (hx : ∀ s a t, x s ≠ .ok a t) (he : Room x 0 0 hi) :
    Room (x >>= f) n d hi :=
  fun s => (he s).bind fun a t h => absurd h (hx s a t)

theorem map {γ : Type} {g : γ → β} {y : Act γ} (hy : Room y n d hi) : Room (g <$> y) n d hi := by
  intro s
  constructor
  · intro b t h
    change EStateM.map g y s = _ at h
    simp only [EStateM.map] at h
    split at h
    · cases h
      exact (hy s).ok _ _ ‹_›
    · cases h
  · intro e t h hroom
    change EStateM.map g y s = _ at h
    simp only [EStateM.map] at h
    split at h
    · cases h
    · cases h
      exact (hy s).error _ _ ‹_› hroom

theorem forIn_list {γ δ : Type} {g : γ → δ → Act (ForInStep δ)} (hg : ∀ c b, Room (g c b) 0 0 hi)
    (hhi : 0 ≤ hi) : ∀ (xs : List γ) (b : δ), Room (forIn xs b g) 0 0 hi
  | [], b => by
    rw [List.forIn_nil]
    exact pure.of_le rfl rfl hhi
  | c :: xs, b => by
    rw [List.forIn_cons]
    refine bind (hg c b) fun r => ?_
    cases r with
    | done b' => exact pure.of_le (by omega) (by omega) (by omega)
    | yield b' => exact (forIn_list hg hhi xs b').of_le (by omega) (by omega) (by omega)

theorem forIn_array {γ δ : Type} {g : γ → δ → Act (ForInStep δ)} (hg : ∀ c b, Room (g c b) 0 0 hi)
    (hhi : 0 ≤ hi) (xs : Array γ) (b : δ) : Room (forIn xs b g) 0 0 hi := by
  rw [← Array.forIn_toList]
  exact forIn_list hg hhi xs.toList b

theorem mapM_list {γ δ : Type} {g : γ → Act δ} (hg : ∀ c, Room (g c) 0 0 hi) (hhi : 0 ≤ hi) :
    ∀ xs : List γ, Room (xs.mapM g) 0 0 hi
  | [] => pure.of_le rfl rfl hhi
  | c :: xs => by
    rw [List.mapM_cons]
    refine bind (hg c) fun b => ?_
    have hrest : Room (xs.mapM g >>= fun ys => Pure.pure (b :: ys)) 0 0 hi :=
      bind (mapM_list hg hhi xs) fun _ => pure.of_le rfl rfl (by omega)
    exact hrest.of_le (by omega) (by omega) (by omega)

theorem mapM_array {γ δ : Type} {g : γ → Act δ} (hg : ∀ c, Room (g c) 0 0 hi) (hhi : 0 ≤ hi)
    (xs : Array γ) : Room (xs.mapM g) 0 0 hi := by
  rw [Array.mapM_eq_mapM_toList]
  exact bind (mapM_list hg hhi xs.toList) fun _ => pure.of_le (by omega) (by omega) (by omega)

end Room

/-! ### The primitives of an activation -/

theorem room_vm (x : Vm α) : Room (vm x) 0 0 1 :=
  Room.of_frame fun s => by
    obtain ⟨m, f⟩ := s
    simp only [vm]
    split <;> rfl

theorem room_vm_quiet {x : Vm α} (hx : x.Quiet) : Room (vm x) 0 0 0 := by
  refine Room.of_frame_quiet (fun s => ?_) fun s e t h => ?_
  · obtain ⟨m, f⟩ := s
    simp only [vm]
    split <;> rfl
  · obtain ⟨m, f⟩ := s
    simp only [vm] at h
    split at h
    · cases h
    · rename_i hx'
      cases h
      exact hx m e _ hx'

theorem room_withContext (x : Vm α) : Room (withContext x) 0 0 1 :=
  Room.of_frame fun s => by
    obtain ⟨m, f⟩ := s
    simp only [withContext]
    split <;> rfl

theorem room_reads (g : Frame → α) : Room (reads g) 0 0 0 :=
  Room.of_frame_quiet (fun _ => rfl) fun _ _ _ h => by cases h

theorem room_readsMachine (g : Machine → α) : Room (readsMachine g) 0 0 0 :=
  Room.of_frame_quiet (fun _ => rfl) fun _ _ _ h => by cases h

theorem room_modifyMachine (g : Machine → Machine) : Room (modifyMachine g) 0 0 0 :=
  Room.of_frame_quiet (fun _ => rfl) fun _ _ _ h => by cases h

theorem room_modifyFrame {g : Frame → Frame} (m : Nat)
    (hg : ∀ f, (g f).code = f.code ∧ (g f).pc = f.pc + m ∧ (g f).stack = f.stack) :
    Room (modifyFrame g) m 0 0 := by
  rintro ⟨M, f⟩
  refine ⟨fun a t h => ?_, fun e t h => by cases h⟩
  cases h
  obtain ⟨hc, hp, hs⟩ := hg f
  exact ⟨hc, by simp [hp], by simp [hs]⟩

theorem room_heap : Room heap 0 0 0 := room_readsMachine _

theorem room_unit : Room unit 0 0 0 := room_reads _

theorem room_internal (msg : String) : Room (internal msg : Act α) n d 0 :=
  Room.throw (Fault.not_isOverflow_internal msg)

theorem room_internal_bind (msg : String) : Room (internal msg >>= f) n d 0 :=
  Room.bind_of_never (fun _ _ _ h => by cases h) (room_internal msg)

theorem room_raise (r : Raise) : Room (raise r : Act α) n d 0 :=
  Room.of_never (fun s a t => raise_ne_ok r s t a) (room_vm_quiet (Vm.quiet_raise r))

theorem room_raise_bind (r : Raise) : Room (raise r >>= f) n d 0 :=
  Room.bind_of_never (fun s a t => raise_ne_ok r s t a) (room_vm_quiet (Vm.quiet_raise r))

theorem room_ofExcept (x : Except Raise α) : Room (ofExcept x) 0 0 0 := by
  refine room_vm_quiet ?_
  cases x with
  | error r => exact Vm.quiet_raise r
  | ok a =>
    intro m e m' h
    cases h

theorem room_stackFault (overflow : Bool) : Room (stackFault overflow) 0 0 0 := room_reads _

theorem room_underflow :
    Room (do let e ← stackFault false; MonadExcept.throw e : Act α) n d 0 := by
  refine fun s => ⟨fun a t h => ?_, fun e t h _ => ?_⟩
  · cases h
  · cases h
    exact ⟨rfl, by omega, by rintro ⟨c, o, h⟩; cases h⟩

theorem room_underflow_bind {g : β → Act α} :
    Room (do let e ← stackFault false; let r ← (MonadExcept.throw e : Act β); g r) n d 0 := by
  refine fun s => ⟨fun a t h => ?_, fun e t h _ => ?_⟩
  · cases h
  · cases h
    exact ⟨rfl, by omega, by rintro ⟨c, o, h⟩; cases h⟩

theorem room_push (v : Value) : Room (push v) 0 1 1 := by
  intro s
  rcases Nat.lt_or_ge s.frame.stack.size s.frame.unit.stackSize with hlt | hfull
  · refine ⟨fun a t h => ?_, fun e t h _ => ?_⟩
    · rw [push_of_lt v hlt] at h
      cases h
      simp
    · rw [push_of_lt v hlt] at h
      cases h
  · refine ⟨fun a t h => ?_, fun e t h hroom => ?_⟩
    · rw [push_of_full v hfull] at h
      cases h
    · omega

theorem room_peek : Room peek 0 0 0 := by
  unfold peek
  refine Room.bind (room_reads _) fun v => ?_
  split
  · exact Room.pure.of_le (by omega) (by omega) (by omega)
  · exact room_underflow

theorem room_peekAt (depth : Nat) : Room (peekAt depth) 0 0 0 := by
  unfold peekAt
  refine Room.bind (room_reads _) fun v => ?_
  split
  · exact Room.pure.of_le (by omega) (by omega) (by omega)
  · exact room_underflow

theorem room_pop : Room pop 0 (-1) 0 := by
  intro s
  refine (room_peek s).bind fun v t hv => ⟨fun a u h => ?_, fun e u h _ => ?_⟩
  · obtain ⟨rfl, -⟩ := peek_ok hv
    have hpop : pop t = .ok a u := by
      unfold pop
      rw [EStateM.run_bind_of_ok hv]
      exact h
    obtain ⟨hpos, rfl⟩ := pop_ok hpop
    refine ⟨rfl, by simp, ?_⟩
    simp only [Array.size_pop]
    omega
  · rw [modifyFrame_bind_run] at h
    cases h

theorem room_popN (m : Nat) : Room (popN m) 0 (-m) 0 := by
  intro s
  constructor
  · intro items t h
    obtain ⟨hm, -, rfl⟩ := popN_ok_shrinks h
    refine ⟨rfl, by simp, ?_⟩
    simp only [Array.size_shrink]
    omega
  · intro e t h _
    unfold popN at h
    rw [reads_bind_run] at h
    dsimp only at h
    split at h
    · cases h
      exact ⟨rfl, by omega, by rintro ⟨c, o, h⟩; cases h⟩
    · rw [reads_bind_run, modifyFrame_bind_run] at h
      cases h

theorem room_rotate (m : Nat) : Room (rotate m) 0 0 0 := by
  intro s
  unfold rotate
  refine (room_reads _ s).bind fun size t hsize => ?_
  cases hsize
  dsimp only
  split
  · exact room_underflow_bind _
  refine (room_pop s).bind fun top t₂ _ =>
    ((room_popN (m - 1)).of_le rfl rfl (by omega) t₂).bind fun rest t₃ hrest => ?_
  obtain ⟨-, hsize, -⟩ := popN_ok_shrinks hrest
  refine ⟨fun a u h => ?_, fun e u h => by cases h⟩
  cases h
  refine ⟨rfl, by simp, ?_⟩
  simp only [Array.size_append, Array.size_push, hsize]
  omega

theorem room_nextByte : Room nextByte 1 0 0 :=
  Room.bind (room_reads _) fun _ =>
    Room.bind (room_modifyFrame 1 fun _ => ⟨rfl, rfl, rfl⟩) fun _ =>
      Room.pure.of_le (by omega) (by omega) (by omega)

theorem room_nextWord : Room nextWord 2 0 0 :=
  Room.bind (room_reads _) fun _ =>
    Room.bind (room_modifyFrame 2 fun _ => ⟨rfl, rfl, rfl⟩) fun _ =>
      Room.pure.of_le (by omega) (by omega) (by omega)

theorem room_nameAt (i : Nat) : Room (nameAt i) 0 0 0 := room_reads _

/-! ### Slots, cells, the namespace and the sites -/

theorem room_unboundLocal (slot : Nat) : Room (unboundLocal slot : Act α) n d 0 :=
  Room.bind (room_reads _) fun _ => (room_raise _).of_le rfl rfl (by omega)

theorem room_loadLocal (slot : Nat) : Room (loadLocal slot) 0 0 0 := by
  refine Room.bind (room_reads _) fun v => ?_
  split
  · exact Room.pure.of_le (by omega) (by omega) (by omega)
  · exact (room_unboundLocal _).of_le rfl rfl (by omega)
  · exact (room_internal _).of_le rfl rfl (by omega)

theorem room_deleteLocal (slot : Nat) : Room (deleteLocal slot) 0 0 0 := by
  refine Room.bind (room_reads _) fun v => ?_
  split
  · exact (room_modifyFrame 0 fun _ => by exact ⟨rfl, rfl, rfl⟩).of_le (by omega) (by omega) (by omega)
  · exact (room_unboundLocal _).of_le rfl rfl (by omega)
  · exact (room_internal _).of_le rfl rfl (by omega)

theorem room_storeLocal (slot : Nat) (v : Value) : Room (storeLocal slot v) 0 0 0 :=
  Room.bind (room_reads _) fun _ =>
    Room.ite (fun _ => (room_modifyFrame 0 fun _ => by exact ⟨rfl, rfl, rfl⟩).of_le (by omega) (by omega)
      (by omega)) fun _ => (room_internal _).of_le rfl rfl (by omega)

theorem room_cellAt (i : Nat) : Room (cellAt i) 0 0 0 := by
  refine Room.bind (room_reads _) fun v => ?_
  split
  · exact Room.pure.of_le (by omega) (by omega) (by omega)
  · exact (room_internal _).of_le rfl rfl (by omega)

theorem room_unboundCell (i : Nat) : Room (unboundCell i : Act α) n d 0 :=
  Room.bind room_unit fun _ => Room.ite (fun _ => (room_raise _).of_le rfl rfl (by omega))
    fun _ => (room_raise _).of_le rfl rfl (by omega)

theorem unboundCell_ne_ok (i : Nat) (s t : Active) (a : α) : (unboundCell i : Act α) s ≠ .ok a t := by
  intro h
  unfold unboundCell at h
  obtain ⟨u, s₁, -, h⟩ := EStateM.ok_of_bind_ok h
  split at h
  · exact raise_ne_ok _ _ _ _ h
  · exact raise_ne_ok _ _ _ _ h

theorem room_unboundCell_bind (i : Nat) : Room (unboundCell i >>= f) n d 0 :=
  Room.bind_of_never (fun s a t => unboundCell_ne_ok i s t a) (room_unboundCell i)

theorem room_cellContent (a : Addr) : Room (cellContent a) 0 0 0 := by
  refine room_vm_quiet (Vm.quiet_obj_bind (fun o m e m' h => ?_) a)
  split at h
  · cases h
  · cases h
    exact Fault.not_isOverflow_internal _

theorem room_setCell (a : Addr) (v : Option Value) : Room (setCell a v) 0 0 0 :=
  room_vm_quiet (Vm.quiet_modifyObj _ _)

theorem room_globals : Room globals 0 0 0 := by
  refine Room.bind (room_reads _) fun a => Room.bind room_heap fun h => ?_
  split
  · exact Room.pure.of_le (by omega) (by omega) (by omega)
  · exact (room_internal _).of_le rfl rfl (by omega)

theorem room_modifyGlobals (g : Globals → Globals) : Room (modifyGlobals g) 0 0 0 :=
  Room.bind (room_reads _) fun _ =>
    (room_vm_quiet (Vm.quiet_modifyObj _ _)).of_le (by omega) (by omega) (by omega)

theorem room_lookupGlobal (name : String) : Room (lookupGlobal name) 0 0 0 := by
  refine Room.bind room_globals fun g => ?_
  split
  · exact Room.pure.of_le (by omega) (by omega) (by omega)
  · exact (room_readsMachine _).of_le (by omega) (by omega) (by omega)

theorem room_site : Room site 0 0 0 :=
  Room.bind (room_reads _) fun _ => (room_readsMachine _).of_le (by omega) (by omega) (by omega)

theorem room_setSite (s : Site) : Room (setSite s) 0 0 0 :=
  Room.bind (room_reads _) fun _ => (room_modifyMachine _).of_le (by omega) (by omega) (by omega)

theorem room_count (g : Stats → Stats) : Room (count g) 0 0 0 := room_modifyMachine _

theorem room_hit : Room hit 0 0 0 := room_count _

theorem room_specializing : Room specializing 0 0 0 := room_readsMachine _

theorem room_missAt (s : Site) : Room (missAt s) 0 0 0 :=
  Room.bind (room_setSite _) fun _ => (room_count _).of_le (by omega) (by omega) (by omega)

theorem room_settle (s : Site) (c : SiteCache) : Room (settle s c) 0 0 0 :=
  Room.bind (room_setSite _) fun _ => (room_count _).of_le (by omega) (by omega) (by omega)

theorem room_noteOperator (kind : SiteCache) (hits : SiteCache → Bool) :
    Room (noteOperator kind hits) 0 0 0 := by
  unfold noteOperator operatorGuess
  refine Room.bind (room_readsMachine _) fun caching => ?_
  dsimp only
  repeat' with_reducible first
    | rfl
    | omega
    | apply Room.of_le Room.pure
    | apply Room.of_le room_hit
    | apply Room.of_le (room_missAt _)
    | apply Room.of_le (room_settle _ _)
    | apply Room.of_le room_site
    | apply Room.ite
    | apply Room.bind
    | intro _
    | split

theorem room_loadGlobal (index : Nat) : Room (loadGlobal index) 0 0 0 := by
  unfold loadGlobal
  repeat' with_reducible first
    | rfl
    | omega
    | apply Room.of_le (room_raise _)
    | apply Room.of_le Room.pure
    | apply Room.of_le (room_nameAt _)
    | apply Room.of_le (room_reads _)
    | apply Room.of_le room_globals
    | apply Room.of_le room_specializing
    | apply Room.of_le room_site
    | apply Room.of_le room_hit
    | apply Room.of_le (room_missAt _)
    | apply Room.of_le (room_settle _ _)
    | apply Room.of_le (room_lookupGlobal _)
    | apply Room.ite
    | apply Room.bind
    | intro _
    | split

theorem room_loadAttr (obj : Value) (index : Nat) : Room (loadAttr obj index) 0 0 1 := by
  unfold loadAttr
  repeat' with_reducible first
    | rfl
    | omega
    | apply Room.of_le Room.pure
    | apply Room.of_le (room_vm _)
    | apply Room.of_le (room_nameAt _)
    | apply Room.of_le room_specializing
    | apply Room.of_le room_heap
    | apply Room.of_le room_site
    | apply Room.of_le room_hit
    | apply Room.of_le (room_missAt _)
    | apply Room.of_le (room_settle _ _)
    | apply Room.ite
    | apply Room.bind
    | intro _
    | split

theorem room_callTarget (callable : Value) (argc : Nat) : Room (callTarget callable argc) 0 0 0 := by
  unfold callTarget
  repeat' with_reducible first
    | rfl
    | omega
    | apply Room.of_le Room.pure
    | apply Room.of_le room_specializing
    | apply Room.of_le room_heap
    | apply Room.of_le room_site
    | apply Room.of_le room_hit
    | apply Room.of_le (room_missAt _)
    | apply Room.of_le (room_settle _ _)
    | apply Room.ite
    | apply Room.bind
    | intro _
    | split

theorem room_spread (v : Value) : Room (spread k v) 0 0 1 := by
  refine Room.bind (room_heap.of_le rfl rfl (by omega)) fun h => ?_
  split
  · exact Room.pure.of_le (by omega) (by omega) (by omega)
  · exact Room.pure.of_le (by omega) (by omega) (by omega)
  · exact (room_withContext _).of_le (by omega) (by omega) (by omega)

theorem room_callFromStack (argc : Nat) : Room (callFromStack k argc) 0 (-argc) 0 :=
  Room.bind (room_popN _) fun _ => Room.bind (room_pop.of_le rfl rfl (by omega)) fun _ =>
    Room.bind ((room_callTarget _ _).of_le rfl rfl (by omega)) fun _ =>
      Room.bind ((room_withContext _).of_le rfl rfl (by omega)) fun _ =>
        (room_push _).of_le (by omega) (by omega) (by omega)

theorem room_callVarargs : Room (callVarargs k) 0 (-1) 0 :=
  Room.bind room_pop fun _ => Room.bind (room_pop.of_le rfl rfl (by omega)) fun _ =>
    Room.bind ((room_spread _).of_le rfl rfl (by omega)) fun _ =>
      Room.bind ((room_withContext _).of_le rfl rfl (by omega)) fun _ =>
        (room_push _).of_le (by omega) (by omega) (by omega)

theorem room_callMethod (name : String) (argc : Nat) :
    Room (callMethod k name argc) 0 (-argc) 0 :=
  Room.bind (room_popN _) fun _ => Room.bind (room_pop.of_le rfl rfl (by omega)) fun _ =>
    Room.bind ((room_vm _).of_le rfl rfl (by omega)) fun _ =>
      Room.bind ((room_withContext _).of_le rfl rfl (by omega)) fun _ =>
        (room_push _).of_le (by omega) (by omega) (by omega)

/-! ### Operators and containers -/

theorem room_binaryOp (op : BinaryOp) : Room (binaryOp op) 0 (-1) 0 :=
  Room.bind room_pop fun _ => Room.bind (room_pop.of_le rfl rfl (by omega)) fun _ =>
    Room.bind (room_heap.of_le rfl rfl (by omega)) fun _ =>
      Room.bind ((room_noteOperator _ _).of_le rfl rfl (by omega)) fun _ =>
        Room.bind ((room_vm _).of_le rfl rfl (by omega)) fun _ =>
          (room_push _).of_le (by omega) (by omega) (by omega)

theorem room_compareOp (op : CompareOp) : Room (compareOp op) 0 (-1) 0 :=
  Room.bind room_pop fun _ => Room.bind (room_pop.of_le rfl rfl (by omega)) fun _ =>
    Room.bind (room_heap.of_le rfl rfl (by omega)) fun _ =>
      Room.bind ((room_noteOperator _ _).of_le rfl rfl (by omega)) fun _ =>
        Room.bind ((room_ofExcept _).of_le rfl rfl (by omega)) fun _ =>
          (room_push _).of_le (by omega) (by omega) (by omega)

theorem room_closureCells (v : Value) : Room (closureCells v) 0 0 0 := by
  refine Room.bind room_heap fun h => ?_
  split
  · refine (Room.mapM_array (fun x => ?_) le_rfl _).of_le (by omega) (by omega) (by omega)
    split
    · exact Room.pure
    · exact room_internal _
  · exact (room_internal _).of_le rfl rfl (by omega)

theorem room_buildDict (m : Nat) : Room (buildDict m) 0 (1 - 2 * m) (max 0 (1 - 2 * m)) := by
  refine Room.bind ((room_popN _).of_le rfl rfl (by omega)) fun items => ?_
  refine Room.bind (Room.forIn_list (fun kv es => ?_) (by omega) _ _) fun es => ?_
  · exact Room.bind (room_heap.of_le rfl rfl (by omega)) fun _ =>
      Room.bind ((room_ofExcept _).of_le rfl rfl (by omega)) fun _ =>
        Room.bind (room_heap.of_le rfl rfl (by omega)) fun _ =>
          Room.pure.of_le (by omega) (by omega) (by omega)
  · exact Room.bind ((room_vm _).of_le rfl rfl (by omega)) fun a =>
      (room_push _).of_le (by omega) (by omega) (by omega)

theorem room_buildSet (m : Nat) : Room (buildSet m) 0 (1 - m) (max 0 (1 - m)) := by
  refine Room.bind ((room_popN _).of_le rfl rfl (by omega)) fun items => ?_
  refine Room.bind (Room.forIn_array (fun v xs => ?_) (by omega) _ _) fun xs => ?_
  · exact Room.bind (room_heap.of_le rfl rfl (by omega)) fun _ =>
      Room.bind ((room_ofExcept _).of_le rfl rfl (by omega)) fun _ =>
        Room.bind (room_heap.of_le rfl rfl (by omega)) fun _ =>
          Room.pure.of_le (by omega) (by omega) (by omega)
  · exact Room.bind ((room_vm _).of_le rfl rfl (by omega)) fun a =>
      (room_push _).of_le (by omega) (by omega) (by omega)

/-- The two flag bits each take a tuple off the stack before the function is pushed; the code
constant is looked up before, where nothing can overflow. -/
theorem room_makeFunction (index flags : Nat) :
    Room (makeFunction index flags) 0 (Opcode.makeFunction.stackEffect index flags)
      (max 0 (Opcode.makeFunction.stackEffect index flags)) := by
  have hc : (flags &&& Opcode.withClosure == 0) = (flags / 2 % 2 == 0) := by
    rw [Opcode.withClosure, land_two]
    rcases Nat.mod_two_eq_zero_or_one (flags / 2) with h | h <;> simp [h]
  have hd : (flags &&& Opcode.withDefaults == 0) = (flags % 2 == 0) := by
    rw [Opcode.withDefaults, Nat.and_one_is_mod]
  unfold makeFunction
  simp only [Opcode.stackEffect, hc, hd]
  rcases Nat.mod_two_eq_zero_or_one flags with h1 | h1 <;>
    rcases Nat.mod_two_eq_zero_or_one (flags / 2) with h2 | h2 <;>
    simp only [h1, h2, beq_self_eq_true, Nat.reduceBEq, Bool.false_eq_true, ↓reduceIte] <;>
  repeat' with_reducible first
    | rfl
    | omega
    | apply Room.of_le (room_internal_bind _)
    | apply Room.of_le (room_internal _)
    | apply Room.of_le Room.pure
    | apply Room.of_le room_unit
    | apply Room.of_le room_heap
    | apply Room.of_le room_pop
    | apply Room.of_le (room_reads _)
    | apply Room.of_le (room_vm _)
    | apply Room.of_le (room_push _)
    | apply Room.of_le (room_closureCells _)
    | apply Room.ite
    | apply Room.bind
    | intro _
    | split

theorem room_pushAll : ∀ xs : List Value,
    Room (forIn xs PUnit.unit fun v _ => do push v; pure (ForInStep.yield PUnit.unit)) 0
      xs.length xs.length
  | [] => Room.pure
  | v :: xs => by
    rw [List.forIn_cons]
    simp only [bind_assoc, pure_bind]
    exact Room.bind ((room_push v).of_le rfl rfl (by simp)) fun _ =>
      (room_pushAll xs).of_le (by omega) (by simp) (by simp)

theorem room_unpackSequence (m : Nat) :
    Room (unpackSequence k m) 0 (m - 1) (max 0 (m - 1)) := by
  unfold unpackSequence
  refine Room.bind (room_pop.of_le rfl rfl (by omega)) fun v =>
    Room.bind ((room_spread _).of_le rfl rfl (by omega)) fun items => ?_
  dsimp only
  by_cases hlt : items.size < m
  · rw [if_pos hlt]
    exact (room_raise_bind _).of_le rfl rfl (by omega)
  by_cases hgt : items.size > m
  · rw [if_neg hlt, if_pos hgt]
    exact (room_raise_bind _).of_le rfl rfl (by omega)
  rw [if_neg hlt, if_neg hgt, ← Array.forIn_toList]
  have hlen : items.reverse.toList.length = m := by
    simp only [Array.toList_reverse, List.length_reverse, Array.length_toList]
    omega
  exact Room.bind ((room_pushAll _).of_le rfl rfl (by omega)) fun _ =>
    Room.pure.of_le (by omega) (by omega) (by omega)

/-! ### Exceptions -/

theorem room_raiseChained (exc : Addr) : Room (raiseChained exc : Act α) n d 1 :=
  Room.bind ((room_reads _).of_le rfl rfl (by omega)) fun _ => Room.bind ((room_vm _).of_le rfl rfl (by omega)) fun _ =>
    (Room.throw (Fault.not_isOverflow_raise exc)).of_le rfl rfl (by omega)

theorem room_raiseFrom : Room (raiseFrom : Act α) n d 0 := by
  refine Room.bind room_pop fun _ => Room.bind (room_pop.of_le rfl rfl (by omega)) fun _ =>
    Room.bind ((room_vm _).of_le rfl rfl (by omega)) fun _ => ?_
  dsimp only
  refine Room.ite (fun _ => ?_) fun _ => ?_
  · exact Room.bind (Room.pure.of_le rfl rfl (by omega)) fun _ =>
      Room.bind ((room_vm _).of_le rfl rfl (by omega)) fun _ =>
        (room_raiseChained _).of_le rfl rfl (by omega)
  · exact Room.bind ((Room.map (room_vm _)).of_le rfl rfl (by omega)) fun _ =>
      Room.bind ((room_vm _).of_le rfl rfl (by omega)) fun _ =>
        (room_raiseChained _).of_le rfl rfl (by omega)

theorem room_reraise : Room (reraise : Act α) n d 0 := by
  refine Room.bind (room_reads _) fun hd => ?_
  split
  · exact (Room.throw (Fault.not_isOverflow_raise _)).of_le rfl rfl (by omega)
  · exact (room_raise _).of_le rfl rfl (by omega)

theorem room_checkExcMatch : Room checkExcMatch 0 0 0 := by
  refine Room.bind room_pop fun _ => Room.bind (room_peek.of_le rfl rfl (by omega)) fun _ =>
    Room.bind (room_heap.of_le rfl rfl (by omega)) fun h => ?_
  split
  · exact Room.bind ((room_ofExcept _).of_le rfl rfl (by omega)) fun _ =>
      (room_push _).of_le (by omega) (by omega) (by omega)
  · exact (room_internal _).of_le rfl rfl (by omega)

theorem room_popExcept : Room popExcept 0 0 0 := by
  refine Room.bind (room_reads _) fun empty => ?_
  dsimp only
  exact Room.ite (fun _ => (room_internal_bind _).of_le rfl rfl (by omega)) fun _ =>
    (room_modifyFrame 0 fun _ => by exact ⟨rfl, rfl, rfl⟩).of_le (by omega) (by omega) (by omega)

/-! ### One instruction -/

/-- Every instruction but a jump and a yield, run from its first operand byte at `p`, finishes
past its operands with the operand stack moved by its stack effect, and needs room for that
effect when it is positive and for nothing otherwise. -/
theorem exec_room (k : Kit) (op : Opcode) (s : Active) (a : Tuning) (p q : Nat)
    (hjump : op.isRelativeJump = false) (hback : op ≠ .jumpBackward) (hyield : op ≠ .yield) :
    RoomAt (exec k op) (s.seenAt a p q) op.operandLen
      (op.stackEffect (s.frame.unit.operandAt op p) (s.frame.unit.byteAt (p + 2)))
      (max 0 (op.stackEffect (s.frame.unit.operandAt op p) (s.frame.unit.byteAt (p + 2)))) := by
  cases op
  case jump | jumpIfTrue | jumpIfFalse | jumpIfTrueOrPop | jumpIfFalseOrPop | forIter =>
    simp [Opcode.isRelativeJump] at hjump
  case jumpBackward => exact absurd rfl hback
  case yield => exact absurd rfl hyield
  case buildList | buildTuple =>
    refine RoomAt.of_run (nextWord_bind s a p q _) rfl rfl rfl ?_
    simp only [CodeUnit.operandAt, Opcode.operandLen, Opcode.stackEffect, Nat.reduceEqDiff,
      ↓reduceIte]
    exact Room.bind ((room_popN _).of_le rfl rfl (by omega)) (fun _ =>
      Room.bind ((room_vm _).of_le rfl rfl (by omega)) fun _ =>
        Room.bind ((room_push _).of_le rfl rfl (by omega)) fun _ =>
          Room.pure.of_le (by omega) (by omega) (by omega)) _
  case buildDict =>
    refine RoomAt.of_run (nextWord_bind s a p q _) rfl rfl rfl ?_
    simp only [CodeUnit.operandAt, Opcode.operandLen, Opcode.stackEffect, Nat.reduceEqDiff,
      ↓reduceIte]
    exact Room.bind (room_buildDict _) (fun _ => Room.pure.of_le (by omega) (by omega) (by omega)) _
  case buildSet =>
    refine RoomAt.of_run (nextWord_bind s a p q _) rfl rfl rfl ?_
    simp only [CodeUnit.operandAt, Opcode.operandLen, Opcode.stackEffect, Nat.reduceEqDiff,
      ↓reduceIte]
    exact Room.bind (room_buildSet _) (fun _ => Room.pure.of_le (by omega) (by omega) (by omega)) _
  case unpackSequence =>
    refine RoomAt.of_run (nextByte_bind s a p q _) rfl rfl rfl ?_
    simp only [CodeUnit.operandAt, Opcode.operandLen, Opcode.stackEffect, ↓reduceIte]
    exact Room.bind (room_unpackSequence _)
      (fun _ => Room.pure.of_le (by omega) (by omega) (by omega)) _
  case callFunction =>
    refine RoomAt.of_run (nextByte_bind s a p q _) rfl rfl rfl ?_
    simp only [CodeUnit.operandAt, Opcode.operandLen, Opcode.stackEffect, ↓reduceIte]
    exact Room.bind ((room_callFromStack _).of_le rfl rfl (by omega))
      (fun _ => Room.pure.of_le (by omega) (by omega) (by omega)) _
  case callMethod =>
    have h : exec k .callMethod (s.seenAt a p q) =
        (callMethod k ((s.frame.unit.names[s.frame.unit.u16At p]?).getD "")
          (s.frame.unit.byteAt (p + 2)) >>= fun _ => pure StepResult.next) (s.seenAt a (p + 3) q) :=
      rfl
    refine RoomAt.of_run h rfl rfl rfl ?_
    simp only [Opcode.operandLen, Opcode.stackEffect]
    exact Room.bind ((room_callMethod _ _).of_le rfl rfl (by omega))
      (fun _ => Room.pure.of_le (by omega) (by omega) (by omega)) _
  case makeFunction =>
    have h : exec k .makeFunction (s.seenAt a p q) =
        (makeFunction (s.frame.unit.u16At p) (s.frame.unit.byteAt (p + 2)) >>= fun _ =>
          pure StepResult.next) (s.seenAt a (p + 3) q) :=
      rfl
    refine RoomAt.of_run h rfl rfl rfl ?_
    simp only [CodeUnit.operandAt, Opcode.operandLen, Nat.reduceEqDiff, ↓reduceIte]
    exact Room.bind (room_makeFunction _ _)
      (fun _ => Room.pure.of_le (by omega) (by omega) (by omega)) _
  case callArgs m =>
    have hE : ∀ x y, (Opcode.callArgs m).stackEffect x y = -m.val := by
      intro x y
      fin_cases m <;> rfl
    simp only [hE, Opcode.operandLen]
    exact Room.bind ((room_callFromStack _).of_le rfl rfl (by omega))
      (fun _ => Room.pure.of_le (by omega) (by omega) (by omega)) _
  all_goals
    simp only [Opcode.stackEffect, Opcode.operandLen]
    refine (?_ : Room _ _ _ _) _
    simp only [exec]
    repeat' with_reducible first
      | rfl
      | omega
      | apply Room.of_le (room_raise _)
      | apply Room.of_le (room_raise_bind _)
      | apply Room.of_le (room_internal _)
      | apply Room.of_le (room_internal_bind _)
      | apply Room.of_le (room_unboundCell _)
      | apply Room.of_le (room_unboundCell_bind _)
      | apply Room.of_le (room_raiseChained _)
      | apply Room.of_le room_raiseFrom
      | apply Room.of_le room_reraise
      | apply Room.of_le Room.pure
      | apply Room.of_le room_pop
      | apply Room.of_le (room_push _)
      | apply Room.of_le room_peek
      | apply Room.of_le (room_peekAt _)
      | apply Room.of_le (room_rotate _)
      | apply Room.of_le room_nextByte
      | apply Room.of_le room_nextWord
      | apply Room.of_le room_unit
      | apply Room.of_le room_heap
      | apply Room.of_le (room_reads _)
      | apply Room.of_le (room_vm _)
      | apply Room.of_le (room_ofExcept _)
      | apply Room.of_le (room_loadLocal _)
      | apply Room.of_le (room_storeLocal _ _)
      | apply Room.of_le (room_deleteLocal _)
      | apply Room.of_le (room_cellAt _)
      | apply Room.of_le (room_cellContent _)
      | apply Room.of_le (room_setCell _ _)
      | apply Room.of_le (room_loadGlobal _)
      | apply Room.of_le (room_nameAt _)
      | apply Room.of_le room_globals
      | apply Room.of_le (room_modifyGlobals _)
      | apply Room.of_le (room_binaryOp _)
      | apply Room.of_le (room_compareOp _)
      | apply Room.of_le (room_loadAttr _ _)
      | apply Room.of_le room_callVarargs
      | apply Room.of_le room_checkExcMatch
      | apply Room.of_le room_popExcept
      | apply Room.ite
      | split
      | apply Room.bind
      | intro _

theorem exec_yield_room (k : Kit) : Room (exec k .yield) 0 (-1) 0 :=
  Room.bind room_pop fun _ => Room.pure.of_le (by omega) (by omega) (by omega)

/-! ### What an instruction finishes with -/

/-- Every finished run of `x` gives a result with `P`. -/
def Gives (x : Act α) (P : α → Prop) : Prop := ∀ s a t, x s = .ok a t → P a

namespace Gives

variable {P : β → Prop}

theorem pure {a : β} (h : P a) : Gives (Pure.pure a : Act β) P := by
  intro s b t hst
  cases hst
  exact h

theorem throw (e : Fault) : Gives (MonadExcept.throw e : Act β) P := by
  intro s b t h
  cases h

theorem bind (hf : ∀ a, Gives (f a) P) : Gives (x >>= f) P := by
  intro s b t h
  obtain ⟨a, t₁, -, h⟩ := EStateM.ok_of_bind_ok h
  exact hf a t₁ b t h

theorem ite {c : Prop} [Decidable c] {y z : Act β} (hy : c → Gives y P) (hz : ¬ c → Gives z P) :
    Gives (if c then y else z) P := by
  split
  · exact hy ‹_›
  · exact hz ‹_›

theorem raise (r : Raise) : Gives (Act.raise r : Act β) P :=
  fun s b t h => absurd h (raise_ne_ok r s t b)

theorem raiseChained (exc : Addr) : Gives (Act.raiseChained exc : Act β) P :=
  bind fun _ => bind fun _ => throw _

theorem raiseFrom : Gives (Act.raiseFrom : Act β) P := by
  refine bind fun _ => bind fun _ => bind fun _ => ?_
  dsimp only
  exact ite (fun _ => bind fun _ => bind fun _ => raiseChained _)
    fun _ => bind fun _ => bind fun _ => raiseChained _

theorem reraise : Gives (Act.reraise : Act β) P := by
  refine bind fun hd => ?_
  split
  · exact throw _
  · exact raise _

end Gives

/-- Only a yield hands a value out of its frame: every other instruction finishes by going on
or returning. -/
theorem exec_not_yield (k : Kit) {op : Opcode} (hop : op ≠ .yield) :
    Gives (exec k op) fun r => ¬ r.IsYield := by
  cases op
  case yield => exact absurd rfl hop
  all_goals
    simp only [exec]
    repeat' with_reducible first
      | exact Gives.pure StepResult.not_isYield_next
      | exact Gives.pure (StepResult.not_isYield_ret _)
      | exact Gives.raiseChained _
      | exact Gives.raiseFrom
      | exact Gives.reraise
      | apply Gives.ite
      | split
      | apply Gives.bind
      | intro _

theorem exec_yield (k : Kit) : Gives (exec k .yield) StepResult.IsYield :=
  Gives.bind fun v => Gives.pure ⟨v, rfl⟩

/-- The instructions after which the fall-through path ends, jumps apart, never go on to the
next instruction. -/
theorem exec_terminal (k : Kit) {op : Opcode} (ht : op.isTerminal = true) (hjump : op ≠ .jump)
    (hback : op ≠ .jumpBackward) : Gives (exec k op) (· ≠ .next) := by
  cases op
  all_goals simp only [Opcode.isTerminal, Bool.false_eq_true] at ht
  case jump => exact absurd rfl hjump
  case jumpBackward => exact absurd rfl hback
  case returnValue => exact Gives.bind fun _ => Gives.pure (by intro h; cases h)
  case returnNone => exact Gives.pure (by intro h; cases h)
  case raise => exact Gives.bind fun _ => Gives.bind fun _ => Gives.raiseChained _
  case raiseFrom => exact Gives.raiseFrom
  case reraise => exact Gives.reraise

end Act

end StackVm
