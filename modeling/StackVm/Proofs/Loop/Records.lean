import Mathlib.Data.List.Nodup
import StackVm.Machine.Profile

/-! Loop records between back-edges.  A back-edge counts an iteration of its loop, compiles the
loop when the count turns it hot, enters the compiled loop while it is ready, and counts each
guard failure of the compiled loop against the record (`Profile.poll`, `LoopInfo.recordDeopt`).
A loop only moves forward (`LoopState.rank`): it counts (cold or warming), is compiled and
ready, or has failed for good.  Hot is a passing state: the back-edge that makes a loop hot
compiles it at once and leaves it ready or failed.

`Profile.Sound` is what holds of a profile between back-edges: one record per back-edge, none
hot, and every record that has counted `maxLoopDeopts` guard failures failed.  One decision of a
back-edge and one counted guard failure keep a profile sound and keep every record with its rank
and count (`Profile.Later`); a decision compiles only a loop that still counts and offers only a
loop that is ready. -/

namespace StackVm

namespace LoopState

/-- How far a loop has come: counting toward compilation, compiled and ready, or failed for
good. -/
def rank : LoopState → Nat
  | cold | warming | hot => 0
  | ready => 1
  | failed => 2

theorem rank_le_two (s : LoopState) : s.rank ≤ 2 := by
  cases s <;> decide

@[simp] theorem rank_failed : failed.rank = 2 := rfl

@[simp] theorem rank_ready : ready.rank = 1 := rfl

theorem eq_failed_of_rank (s : LoopState) (h : 2 ≤ s.rank) : s = failed := by
  cases s <;> simp_all [rank]

end LoopState

namespace LoopInfo

/-- A record between back-edges: not hot, and failed once it has counted `maxLoopDeopts` guard
failures of its compiled loop. -/
structure Rests (l : LoopInfo) : Prop where
  not_hot : l.state ≠ .hot
  abandoned : maxLoopDeopts ≤ l.deopts → l.state = .failed

/-- A later record of the same back-edge, at least as far on. -/
structure Later (l l' : LoopInfo) : Prop where
  backEdge : l'.backEdge = l.backEdge
  rank : l.state.rank ≤ l'.state.rank

namespace Later

theorem refl (l : LoopInfo) : l.Later l := ⟨rfl, Nat.le_refl _⟩

theorem trans {l l' l'' : LoopInfo} (h₁ : l.Later l') (h₂ : l'.Later l'') : l.Later l'' :=
  ⟨h₂.backEdge.trans h₁.backEdge, Nat.le_trans h₁.rank h₂.rank⟩

theorem failed {l l' : LoopInfo} (h : l.Later l') (hf : l.state = .failed) :
    l'.state = .failed :=
  LoopState.eq_failed_of_rank _ (by simpa [hf] using h.rank)

end Later

theorem rests_fresh (header backEdge : Nat) : ({ header, backEdge } : LoopInfo).Rests :=
  ⟨nofun, by simp [maxLoopDeopts]⟩

theorem Rests.deopts_lt {l : LoopInfo} (h : l.Rests) (hr : l.state.rank = 0) :
    l.deopts < maxLoopDeopts := by
  refine Nat.lt_of_not_le fun hd => ?_
  have := h.abandoned hd
  simp [this] at hr

section Iteration

variable (l : LoopInfo) (t : Nat)

@[simp] theorem recordIteration_backEdge : (l.recordIteration t).1.backEdge = l.backEdge := rfl

@[simp] theorem recordIteration_deopts : (l.recordIteration t).1.deopts = l.deopts := rfl

theorem recordIteration_state : (l.recordIteration t).1.state = (l.recordIteration t).2 := rfl

theorem recordIteration_of_rank_pos (h : 0 < l.state.rank) : (l.recordIteration t).2 = l.state := by
  obtain ⟨header, backEdge, trips, deopts, state⟩ := l
  cases state <;> simp_all [recordIteration, LoopState.rank]

theorem rank_of_recordIteration_hot (h : (l.recordIteration t).2 = .hot) : l.state.rank = 0 := by
  refine Nat.eq_zero_of_not_pos fun hr => ?_
  rw [recordIteration_of_rank_pos l t hr] at h
  simp [h, LoopState.rank] at hr

theorem later_recordIteration : l.Later (l.recordIteration t).1 := by
  refine ⟨rfl, ?_⟩
  rcases Nat.eq_zero_or_pos l.state.rank with h | h
  · exact h ▸ Nat.zero_le _
  · exact Nat.le_of_eq (by rw [recordIteration_state, recordIteration_of_rank_pos l t h])

theorem rests_recordIteration (h : l.Rests) (hn : (l.recordIteration t).2 ≠ .hot) :
    (l.recordIteration t).1.Rests := by
  refine ⟨by rwa [recordIteration_state], fun hd => ?_⟩
  have hf := h.abandoned hd
  rw [recordIteration_state, recordIteration_of_rank_pos l t (by simp [hf])]
  exact hf

end Iteration

@[simp] theorem markReady_backEdge (l : LoopInfo) : l.markReady.backEdge = l.backEdge := rfl
@[simp] theorem markReady_deopts (l : LoopInfo) : l.markReady.deopts = l.deopts := rfl
@[simp] theorem markReady_state (l : LoopInfo) : l.markReady.state = .ready := rfl
@[simp] theorem markFailed_backEdge (l : LoopInfo) : l.markFailed.backEdge = l.backEdge := rfl
@[simp] theorem markFailed_deopts (l : LoopInfo) : l.markFailed.deopts = l.deopts := rfl
@[simp] theorem markFailed_state (l : LoopInfo) : l.markFailed.state = .failed := rfl

theorem later_markReady {l : LoopInfo} (h : l.state.rank = 0) : l.Later l.markReady :=
  ⟨rfl, by simp [h]⟩

theorem later_markFailed (l : LoopInfo) : l.Later l.markFailed :=
  ⟨rfl, by simpa using l.state.rank_le_two⟩

theorem rests_markReady {l : LoopInfo} (h : l.deopts < maxLoopDeopts) : l.markReady.Rests :=
  ⟨nofun, fun hd => absurd hd (by simpa using h)⟩

theorem rests_markFailed (l : LoopInfo) : l.markFailed.Rests := ⟨nofun, fun _ => rfl⟩

theorem recordDeopt_eq (l : LoopInfo) :
    l.recordDeopt.backEdge = l.backEdge ∧
      l.recordDeopt.deopts = min (l.deopts + 1) (Nat.pow 2 32 - 1) ∧
      l.recordDeopt.state = if maxLoopDeopts ≤ min (l.deopts + 1) (Nat.pow 2 32 - 1) then .failed
        else l.state := by
  by_cases hm : maxLoopDeopts ≤ min (l.deopts + 1) (Nat.pow 2 32 - 1) <;>
    simp [recordDeopt, markFailed, hm]

@[simp] theorem recordDeopt_backEdge (l : LoopInfo) : l.recordDeopt.backEdge = l.backEdge :=
  l.recordDeopt_eq.1

theorem later_recordDeopt (l : LoopInfo) : l.Later l.recordDeopt := by
  obtain ⟨hb, -, hs⟩ := l.recordDeopt_eq
  refine ⟨hb, ?_⟩
  rw [hs]
  split
  · simpa using l.state.rank_le_two
  · exact Nat.le_refl _

theorem rests_recordDeopt {l : LoopInfo} (h : l.Rests) : l.recordDeopt.Rests := by
  obtain ⟨-, hd, hs⟩ := l.recordDeopt_eq
  refine ⟨?_, fun hm => ?_⟩
  · rw [hs]
    split
    · nofun
    · exact h.not_hot
  · rw [hs, if_pos (hd ▸ hm)]

end LoopInfo

namespace Profile

variable {pr : Profile} {header b : Nat} {g : LoopInfo → LoopInfo}

/-- The record of the back-edge at `b` as the engine reads it: the one kept, or a fresh one
for the loop with header `header`. -/
def recordAt (pr : Profile) (header b : Nat) : LoopInfo :=
  let (pr, i) := pr.loopIndex header b
  (pr.loops[i]?).getD { header, backEdge := b }

/-- The profile with the record of the back-edge at `b` changed by `g`, the record made on
first use. -/
def withLoop (pr : Profile) (header b : Nat) (g : LoopInfo → LoopInfo) : Profile :=
  let (pr', i) := pr.loopIndex header b
  { pr' with loops := pr'.loops.set! i (g ((pr'.loops[i]?).getD { header, backEdge := b })) }

/-- The back-edges that have records, in the order they were made. -/
def backEdges (pr : Profile) : List Nat := pr.loops.toList.map (·.backEdge)

/-! ### Finding and changing a record -/

theorem withLoop_of_found (header : Nat) (g : LoopInfo → LoopInfo) {i : Nat}
    (hi : pr.loops.findIdx? (·.backEdge == b) = some i) :
    ∃ hlt : i < pr.loops.size, pr.loops[i].backEdge = b ∧
      (∀ j (hj : j < i), pr.loops[j].backEdge ≠ b) ∧ pr.recordAt header b = pr.loops[i] ∧
      pr.withLoop header b g = { pr with loops := pr.loops.set i (g pr.loops[i]) } := by
  obtain ⟨hlt, hb, hfirst⟩ := Array.findIdx?_eq_some_iff_getElem.1 hi
  refine ⟨hlt, by simpa using hb, fun j hj => by simpa using hfirst j hj, ?_, ?_⟩
  · simp [recordAt, loopIndex, hi, hlt]
  · simp [withLoop, loopIndex, hi, hlt, Array.setIfInBounds_def]

theorem withLoop_of_fresh (header : Nat) (g : LoopInfo → LoopInfo)
    (hn : pr.loops.findIdx? (·.backEdge == b) = none) :
    (∀ l ∈ pr.loops, l.backEdge ≠ b) ∧ pr.recordAt header b = { header, backEdge := b } ∧
      pr.withLoop header b g =
        { pr with loops := pr.loops.push (g { header, backEdge := b }) } := by
  refine ⟨fun l hl => by simpa using Array.findIdx?_eq_none_iff.1 hn l hl, ?_, ?_⟩
  · simp [recordAt, loopIndex, hn]
  · simp [withLoop, loopIndex, hn, Array.setIfInBounds_def, Array.set_push]

@[simp] theorem withLoop_compiled : (pr.withLoop header b g).compiled = pr.compiled := by
  cases hi : pr.loops.findIdx? (·.backEdge == b) with
  | some i =>
    obtain ⟨_, _, _, _, h⟩ := withLoop_of_found header g hi
    rw [h]
  | none => rw [(withLoop_of_fresh header g hi).2.2]

theorem recordAt_backEdge : (pr.recordAt header b).backEdge = b := by
  cases hi : pr.loops.findIdx? (·.backEdge == b) with
  | some i =>
    obtain ⟨_, hb, _, h, _⟩ := withLoop_of_found header id hi
    rw [h, hb]
  | none => rw [(withLoop_of_fresh header id hi).2.1]

theorem mem_withLoop_self : g (pr.recordAt header b) ∈ (pr.withLoop header b g).loops := by
  cases hi : pr.loops.findIdx? (·.backEdge == b) with
  | some i =>
    obtain ⟨hlt, -, -, hr, h⟩ := withLoop_of_found header g hi
    rw [h, hr]
    exact Array.mem_set hlt
  | none =>
    obtain ⟨-, hr, h⟩ := withLoop_of_fresh header g hi
    rw [h, hr]
    exact Array.mem_push_self

theorem mem_of_mem_withLoop {l : LoopInfo} (hl : l ∈ (pr.withLoop header b g).loops) :
    l ∈ pr.loops ∨ l = g (pr.recordAt header b) := by
  cases hi : pr.loops.findIdx? (·.backEdge == b) with
  | some i =>
    obtain ⟨hlt, -, -, hr, h⟩ := withLoop_of_found header g hi
    rw [h] at hl
    rw [hr]
    exact Array.mem_or_eq_of_mem_set (w := hlt) hl
  | none =>
    obtain ⟨-, hr, h⟩ := withLoop_of_fresh header g hi
    rw [h] at hl
    rw [hr]
    exact Array.mem_push.1 hl

theorem mem_withLoop_of_mem {l : LoopInfo} (hl : l ∈ pr.loops) :
    l ∈ (pr.withLoop header b g).loops ∨ l = pr.recordAt header b := by
  cases hi : pr.loops.findIdx? (·.backEdge == b) with
  | some i =>
    obtain ⟨hlt, -, -, hr, h⟩ := withLoop_of_found header g hi
    rw [h, hr]
    obtain ⟨j, hj, rfl⟩ := Array.mem_iff_getElem.1 hl
    by_cases hji : i = j
    · exact .inr (by simp [hji])
    · refine .inl (Array.mem_iff_getElem.2 ⟨j, by simpa using hj, ?_⟩)
      simp [Array.getElem_set, hji]
  | none =>
    obtain ⟨-, -, h⟩ := withLoop_of_fresh header g hi
    rw [h]
    exact .inl (Array.mem_push.2 (.inl hl))

theorem nodup_withLoop (hg : ∀ l, (g l).backEdge = l.backEdge) (hd : pr.backEdges.Nodup) :
    (pr.withLoop header b g).backEdges.Nodup := by
  cases hi : pr.loops.findIdx? (·.backEdge == b) with
  | some i =>
    obtain ⟨hlt, -, -, -, h⟩ := withLoop_of_found header g hi
    have hmap : (pr.loops.set i (g pr.loops[i])).toList.map (·.backEdge) = pr.backEdges := by
      refine List.ext_getElem (by simp [backEdges]) fun j h₁ h₂ => ?_
      simp only [List.getElem_map, Array.getElem_toList, Array.getElem_set, backEdges]
      split <;> simp_all
    rw [h]
    simpa only [backEdges, hmap] using hd
  | none =>
    obtain ⟨hne, -, h⟩ := withLoop_of_fresh header g hi
    rw [h]
    simp only [backEdges, Array.toList_push, List.map_append, List.map_cons, List.map_nil, hg]
    refine List.nodup_append.2 ⟨hd, List.nodup_singleton _, ?_⟩
    simp only [List.mem_map, Array.mem_toList_iff, List.mem_singleton]
    rintro _ ⟨l, hl, rfl⟩ _ rfl
    exact hne l hl

theorem recordAt_eq_of_mem (hd : pr.backEdges.Nodup) {l : LoopInfo} (hl : l ∈ pr.loops)
    (hb : l.backEdge = b) : pr.recordAt header b = l := by
  cases hi : pr.loops.findIdx? (·.backEdge == b) with
  | some i =>
    obtain ⟨hlt, hib, -, hr, -⟩ := withLoop_of_found header id hi
    rw [hr]
    obtain ⟨j, hj, rfl⟩ := Array.mem_iff_getElem.1 hl
    have hl' : i < pr.backEdges.length := by simp [backEdges, hlt]
    have hj' : j < pr.backEdges.length := by simp [backEdges, hj]
    have heq : pr.backEdges[i] = pr.backEdges[j] := by simp [backEdges, hib, hb]
    have := hd.getElem_inj_iff.1 heq
    simp [this]
  | none => exact absurd hb ((withLoop_of_fresh header id hi).1 l hl)

theorem recordAt_mem_or : pr.recordAt header b ∈ pr.loops ∨
    pr.recordAt header b = { header, backEdge := b } := by
  cases hi : pr.loops.findIdx? (·.backEdge == b) with
  | some i =>
    obtain ⟨hlt, -, -, hr, -⟩ := withLoop_of_found header id hi
    exact .inl (hr ▸ Array.getElem_mem hlt)
  | none => exact .inr (withLoop_of_fresh header id hi).2.1

theorem withLoop_withLoop (hg : ∀ l, (g l).backEdge = l.backEdge) (g' : LoopInfo → LoopInfo) :
    (pr.withLoop header b g).withLoop header b g' = pr.withLoop header b (g' ∘ g) := by
  cases hi : pr.loops.findIdx? (·.backEdge == b) with
  | some i =>
    obtain ⟨hlt, hb, hfirst, -, h⟩ := withLoop_of_found header g hi
    have hi' : (pr.withLoop header b g).loops.findIdx? (·.backEdge == b) = some i := by
      rw [h]
      refine Array.findIdx?_eq_some_iff_getElem.2 ⟨by simpa using hlt, by simp [hg, hb], ?_⟩
      intro j hj
      simp [Array.getElem_set, Nat.ne_of_gt hj, hfirst j hj]
    obtain ⟨hlt', -, -, -, h'⟩ := withLoop_of_found header g' hi'
    obtain ⟨hlt'', -, -, -, h''⟩ := withLoop_of_found header (g' ∘ g) hi
    rw [h', h'']
    simp only [h]
    simp
  | none =>
    obtain ⟨hne, -, h⟩ := withLoop_of_fresh header g hi
    have hi' : (pr.withLoop header b g).loops.findIdx? (·.backEdge == b) = some pr.loops.size := by
      rw [h, Array.findIdx?_push, hi]
      simp [hg]
    obtain ⟨hlt', -, -, -, h'⟩ := withLoop_of_found header g' hi'
    obtain ⟨-, -, h''⟩ := withLoop_of_fresh header (g' ∘ g) hi
    rw [h', h'']
    simp only [h]
    simp [Array.set_push]

/-! ### Profiles between back-edges -/

/-- A profile between back-edges: one record per back-edge, each at rest. -/
structure Sound (pr : Profile) : Prop where
  distinct : pr.backEdges.Nodup
  rests : ∀ l ∈ pr.loops, l.Rests

/-- A later profile: every record is still kept, at least as far on. -/
def Later (pr pr' : Profile) : Prop := ∀ l ∈ pr.loops, ∃ l' ∈ pr'.loops, l.Later l'

theorem Later.refl (pr : Profile) : pr.Later pr := fun l hl => ⟨l, hl, .refl l⟩

theorem Later.trans {pr pr' pr'' : Profile} (h₁ : pr.Later pr') (h₂ : pr'.Later pr'') :
    pr.Later pr'' := by
  intro l hl
  obtain ⟨l', hl', h⟩ := h₁ l hl
  obtain ⟨l'', hl'', h'⟩ := h₂ l' hl'
  exact ⟨l'', hl'', h.trans h'⟩

/-- The back-edge at `b` has a record that no longer counts: its loop has been compiled, or
tried. -/
def Settled (pr : Profile) (b : Nat) : Prop :=
  ∃ l ∈ pr.loops, l.backEdge = b ∧ 0 < l.state.rank

/-- The back-edge at `b` has a failed record. -/
def FailedAt (pr : Profile) (b : Nat) : Prop :=
  ∃ l ∈ pr.loops, l.backEdge = b ∧ l.state = .failed

theorem Later.settled {pr pr' : Profile} (h : pr.Later pr') (hs : pr.Settled b) :
    pr'.Settled b := by
  obtain ⟨l, hl, hb, hr⟩ := hs
  obtain ⟨l', hl', hll⟩ := h l hl
  exact ⟨l', hl', hll.backEdge.trans hb, Nat.lt_of_lt_of_le hr hll.rank⟩

theorem Later.failedAt {pr pr' : Profile} (h : pr.Later pr') (hf : pr.FailedAt b) :
    pr'.FailedAt b := by
  obtain ⟨l, hl, hb, hs⟩ := hf
  obtain ⟨l', hl', hll⟩ := h l hl
  exact ⟨l', hl', hll.backEdge.trans hb, hll.failed hs⟩

theorem later_withLoop (hg : (pr.recordAt header b).Later (g (pr.recordAt header b))) :
    pr.Later (pr.withLoop header b g) := by
  intro l hl
  have hm : l ∈ (pr.withLoop header b g).loops ∨ l = pr.recordAt header b :=
    mem_withLoop_of_mem hl
  rcases hm with h | rfl
  · exact ⟨l, h, .refl l⟩
  · exact ⟨_, mem_withLoop_self, hg⟩

namespace Sound

variable (h : pr.Sound)
include h

theorem rests_recordAt : (pr.recordAt header b).Rests :=
  recordAt_mem_or.elim (h.rests _) fun he => he ▸ LoopInfo.rests_fresh header b

theorem recordAt_eq {l : LoopInfo} (hl : l ∈ pr.loops) (hb : l.backEdge = b) :
    pr.recordAt header b = l :=
  recordAt_eq_of_mem h.distinct hl hb

theorem withLoop (hg : ∀ l, (g l).backEdge = l.backEdge) (hr : (g (pr.recordAt header b)).Rests) :
    (pr.withLoop header b g).Sound := by
  refine ⟨nodup_withLoop hg h.distinct, fun l hl => ?_⟩
  rcases mem_of_mem_withLoop hl with hl | rfl
  · exact h.rests l hl
  · exact hr

end Sound

/-! ### The decision of a back-edge -/

/-- The decision of a back-edge at `b` that jumps to `header`, at stack depth `depth`, in code
of the unit `u`, with loops compiled after `t` iterations: it counts the iteration, compiles the
loop when the count turns it hot, and gives the profile it leaves and the compiled loop to enter,
if any. -/
def poll (pr : Profile) (u : CodeUnit) (fast : Bool) (header b depth t : Nat) :
    Profile × Option CompiledLoop :=
  let counted := pr.withLoop header b fun l => (l.recordIteration t).1
  match ((pr.recordAt header b).recordIteration t).2 with
  | .hot =>
    match CompiledLoop.compile u header b depth fast with
    | .ok c =>
      let ready := counted.withLoop header b LoopInfo.markReady
      ({ ready with compiled := ready.compiled.push c }, some c)
    | .error _ => (counted.withLoop header b LoopInfo.markFailed, none)
  | .ready => (counted, counted.compiledAt header)
  | _ => (counted, none)

section Poll

variable {u : CodeUnit} {fast : Bool} {depth t : Nat}

/-- What a decision can do: count the iteration, and offer compiled code only to a loop that
was ready; or compile a loop the count turned hot, leave it ready and offer its compiled code;
or fail a loop whose compilation was rejected. -/
theorem poll_cases (pr : Profile) (u : CodeUnit) (fast : Bool) (header b depth t : Nat) :
    (((pr.recordAt header b).recordIteration t).2 ≠ .hot ∧
      (pr.poll u fast header b depth t).1 = pr.withLoop header b (·.recordIteration t |>.1) ∧
      ((pr.poll u fast header b depth t).2 = none ∨
        ((pr.recordAt header b).recordIteration t).2 = .ready)) ∨
    (((pr.recordAt header b).recordIteration t).2 = .hot ∧
      ∃ c, CompiledLoop.compile u header b depth fast = .ok c ∧
        pr.poll u fast header b depth t =
          ({ pr.withLoop header b (LoopInfo.markReady ∘ (·.recordIteration t |>.1)) with
              compiled := pr.compiled.push c }, some c)) ∨
    (((pr.recordAt header b).recordIteration t).2 = .hot ∧
      (∃ e, CompiledLoop.compile u header b depth fast = .error e) ∧
        pr.poll u fast header b depth t =
          (pr.withLoop header b (LoopInfo.markFailed ∘ (·.recordIteration t |>.1)), none)) := by
  have hg : ∀ l : LoopInfo, (l.recordIteration t).1.backEdge = l.backEdge := fun _ => rfl
  unfold poll
  cases hst : ((pr.recordAt header b).recordIteration t).2
  case hot =>
    cases hc : CompiledLoop.compile u header b depth fast with
    | ok c => exact .inr (.inl ⟨rfl, c, rfl, by simp [withLoop_withLoop hg]⟩)
    | error e => exact .inr (.inr ⟨rfl, ⟨e, rfl⟩, by simp [withLoop_withLoop hg]⟩)
  case ready => exact .inl ⟨nofun, rfl, .inr rfl⟩
  all_goals exact .inl ⟨nofun, rfl, .inl rfl⟩

/-- A decision keeps a sound profile sound. -/
theorem Sound.poll (h : pr.Sound) : (pr.poll u fast header b depth t).1.Sound := by
  have hg : ∀ l : LoopInfo, (l.recordIteration t).1.backEdge = l.backEdge := fun _ => rfl
  have hl : (pr.recordAt header b).Rests := h.rests_recordAt
  rcases poll_cases pr u fast header b depth t with
    ⟨hst, h₁, -⟩ | ⟨hst, c, -, hr⟩ | ⟨hst, -, hr⟩
  · rw [h₁]
    exact h.withLoop hg (LoopInfo.rests_recordIteration _ _ hl hst)
  · have hd := hl.deopts_lt (LoopInfo.rank_of_recordIteration_hot _ _ hst)
    have hs : (pr.withLoop header b (LoopInfo.markReady ∘ (·.recordIteration t |>.1))).Sound :=
      h.withLoop (fun _ => rfl)
        (LoopInfo.rests_markReady (l := ((pr.recordAt header b).recordIteration t).1) hd)
    rw [hr]
    exact ⟨hs.distinct, hs.rests⟩
  · rw [hr]
    exact h.withLoop (fun _ => rfl) (LoopInfo.rests_markFailed _)

theorem later_poll : pr.Later (pr.poll u fast header b depth t).1 := by
  have hit := LoopInfo.later_recordIteration (pr.recordAt header b) t
  rcases poll_cases pr u fast header b depth t with
    ⟨-, h₁, -⟩ | ⟨hst, c, -, hr⟩ | ⟨-, -, hr⟩
  · rw [h₁]
    exact later_withLoop hit
  · rw [hr]
    exact later_withLoop (hit.trans (LoopInfo.later_markReady (by
      rw [LoopInfo.recordIteration_state, hst]
      rfl)))
  · rw [hr]
    exact later_withLoop (hit.trans (LoopInfo.later_markFailed _))

theorem poll_mem : ∃ l ∈ (pr.poll u fast header b depth t).1.loops, l.backEdge = b := by
  rcases poll_cases pr u fast header b depth t with
    ⟨-, h₁, -⟩ | ⟨-, c, -, hr⟩ | ⟨-, -, hr⟩
  · rw [h₁]
    exact ⟨_, mem_withLoop_self, by simp [recordAt_backEdge]⟩
  · rw [hr]
    exact ⟨_, mem_withLoop_self, by simp [recordAt_backEdge]⟩
  · rw [hr]
    exact ⟨_, mem_withLoop_self, by simp [recordAt_backEdge]⟩

theorem poll_compiled : (pr.poll u fast header b depth t).1.compiled = pr.compiled ∨
    ((pr.recordAt header b).recordIteration t).2 = .hot ∧ ∃ c,
      CompiledLoop.compile u header b depth fast = .ok c ∧
        (pr.poll u fast header b depth t).1.compiled = pr.compiled.push c := by
  rcases poll_cases pr u fast header b depth t with
    ⟨-, h₁, -⟩ | ⟨hst, c, hc, hr⟩ | ⟨-, -, hr⟩
  · rw [h₁]
    exact .inl withLoop_compiled
  · rw [hr]
    exact .inr ⟨hst, c, hc, rfl⟩
  · rw [hr]
    exact .inl withLoop_compiled

theorem Sound.poll_hot (h : pr.Sound) (hst : ((pr.recordAt header b).recordIteration t).2 = .hot) :
    ¬ pr.Settled b ∧ (pr.poll u fast header b depth t).1.Settled b := by
  have hr := LoopInfo.rank_of_recordIteration_hot _ _ hst
  refine ⟨fun ⟨l, hl, hb, hpos⟩ => ?_, ?_⟩
  · rw [h.recordAt_eq hl hb] at hr
    exact Nat.lt_irrefl 0 (hr ▸ hpos)
  · rcases poll_cases pr u fast header b depth t with
      ⟨hn, -, -⟩ | ⟨-, c, -, hp⟩ | ⟨-, -, hp⟩
    · exact absurd hst hn
    · rw [hp]
      exact ⟨_, mem_withLoop_self, by simp [recordAt_backEdge], by simp⟩
    · rw [hp]
      exact ⟨_, mem_withLoop_self, by simp [recordAt_backEdge], by simp⟩

theorem poll_ready {c : CompiledLoop} (hc : (pr.poll u fast header b depth t).2 = some c) :
    ∃ l ∈ (pr.poll u fast header b depth t).1.loops, l.backEdge = b ∧ l.state = .ready := by
  rcases poll_cases pr u fast header b depth t with
    ⟨-, h₁, hn | hst⟩ | ⟨-, c', -, hr⟩ | ⟨-, -, hr⟩
  · rw [hn] at hc
    cases hc
  · rw [h₁]
    exact ⟨_, mem_withLoop_self, by simp [recordAt_backEdge], hst⟩
  · rw [hr]
    exact ⟨_, mem_withLoop_self, by simp [recordAt_backEdge], rfl⟩
  · rw [hr] at hc
    cases hc

theorem Sound.poll_failed (h : pr.Sound) (hf : pr.FailedAt b) :
    (pr.poll u fast header b depth t).2 = none := by
  obtain ⟨l, hl, hb, hs⟩ := hf
  have hst : ((pr.recordAt header b).recordIteration t).2 = .failed := by
    rw [h.recordAt_eq hl hb, LoopInfo.recordIteration_of_rank_pos _ _ (by simp [hs]), hs]
  rcases poll_cases pr u fast header b depth t with
    ⟨-, -, hn | hr⟩ | ⟨hh, -⟩ | ⟨hh, -⟩
  · exact hn
  · simp [hst] at hr
  · simp [hst] at hh
  · simp [hst] at hh

end Poll

/-! ### A guard failure -/

theorem Sound.recordDeopt (h : pr.Sound) : (pr.withLoop header b LoopInfo.recordDeopt).Sound :=
  h.withLoop (fun _ => LoopInfo.recordDeopt_backEdge _)
    (LoopInfo.rests_recordDeopt h.rests_recordAt)

theorem later_recordDeopt : pr.Later (pr.withLoop header b LoopInfo.recordDeopt) :=
  later_withLoop (LoopInfo.later_recordDeopt _)

end Profile

end StackVm
