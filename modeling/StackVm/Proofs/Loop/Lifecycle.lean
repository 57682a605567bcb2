import StackVm.Proofs.Loop.Polling
import StackVm.Proofs.Loop.Simulation

/-! The life of a loop under its back-edges.  One back-edge keeps the profile of its unit sound,
keeps every record at least as far on, compiles only a loop that still counts, enters compiled
code only from a ready record, and never from a failed one.  `BackEdgeRun` strings back-edges
together on one profile; by induction on the run these facts give the lifecycle of every loop
over the whole run (`back_edges_never_thrash`).  `Machine.BackEdgesTo` relates two machines whose
profiles differ in their loops by such a run, as the engine's machines do (`Machine.Retains`). -/

namespace StackVm

namespace Act

open Profile

variable {s : Active} {d : Nat}

/-! ### One back-edge -/

section Step

variable (hp : s.frame.code.profile < s.machine.profiles.size)
include hp

theorem sound_backEdge (h : s.profile.Sound) : (backEdge d s).state.profile.Sound := by
  rcases (backEdge_profile (d := d) hp).2 with ⟨-, he, -⟩ | ⟨t, -, -, ⟨he, -⟩ | ⟨-, he⟩⟩
  · exact he ▸ h
  · exact he ▸ h.poll
  · exact he ▸ h.poll.recordDeopt

theorem later_backEdge : s.profile.Later (backEdge d s).state.profile := by
  rcases (backEdge_profile (d := d) hp).2 with ⟨-, he, -⟩ | ⟨t, -, -, ⟨he, -⟩ | ⟨-, he⟩⟩
  · exact he ▸ Later.refl _
  · exact he ▸ later_poll
  · exact he ▸ later_poll.trans later_recordDeopt

theorem backEdge_mem (hd : d ≤ s.frame.instrPc) (ht : s.machine.config.osrThreshold.isSome) :
    ∃ l ∈ (backEdge d s).state.profile.loops, l.backEdge = s.frame.instrPc := by
  rcases (backEdge_profile (d := d) hp).2 with ⟨hn, -, -⟩ | ⟨t, -, -, ⟨he, -⟩ | ⟨-, he⟩⟩
  · exact absurd ⟨hd, ht⟩ hn
  · exact he ▸ poll_mem
  · obtain ⟨l, hl, hb⟩ : ∃ l ∈ (s.poll d t).1.loops, l.backEdge = s.frame.instrPc :=
      poll_mem
    obtain ⟨l', hl', hll⟩ := later_recordDeopt l hl
    exact ⟨l', he ▸ hl', hll.backEdge.trans hb⟩

/-- A back-edge adds a compiled loop to the profile only when it compiles its loop, and then it
adds the loop it compiled. -/
theorem backEdge_compiled : (backEdge d s).state.profile.compiled = s.profile.compiled ∨
    s.compilesLoop d ∧ ∃ c, s.loopCompiled d = .ok c ∧
      (backEdge d s).state.profile.compiled = s.profile.compiled.push c := by
  rcases (backEdge_profile (d := d) hp).2 with ⟨-, he, -⟩ | ⟨t, ht, hd, hcases⟩
  · exact .inl (by rw [he])
  · have hc : (backEdge d s).state.profile.compiled = (s.poll d t).1.compiled := by
      rcases hcases with ⟨he, -⟩ | ⟨-, he⟩
      · rw [he]
      · rw [he, withLoop_compiled]
    rcases poll_compiled with hpc | ⟨hst, c, hcomp, hpc⟩
    · exact .inl (hc.trans hpc)
    · exact .inr ⟨⟨hd, t, ht, hst⟩, c, hcomp, hc.trans hpc⟩

variable (h : s.profile.Sound)
include h

theorem backEdge_compiles (hc : s.compilesLoop d) :
    ¬ s.profile.Settled s.frame.instrPc ∧
      (backEdge d s).state.profile.Settled s.frame.instrPc := by
  obtain ⟨hd, t, ht, hst⟩ := hc
  rcases (backEdge_profile (d := d) hp).2 with ⟨hn, -, -⟩ | ⟨t', ht', -, hcases⟩
  · exact absurd ⟨hd, by simp [ht]⟩ hn
  · obtain rfl : t' = t := Option.some_inj.1 (ht'.symm.trans ht)
    obtain ⟨hns, hs⟩ : ¬ s.profile.Settled s.frame.instrPc ∧
        (s.poll d t').1.Settled s.frame.instrPc := h.poll_hot hst
    refine ⟨hns, ?_⟩
    rcases hcases with ⟨he, -⟩ | ⟨-, he⟩
    · exact he ▸ hs
    · exact he ▸ later_recordDeopt.settled hs

/-- A back-edge enters compiled code only from a ready record: its record after it is that
ready record, or that record with the guard failure of the compiled loop counted. -/
theorem backEdge_enters_ready (he : s.entersLoop d) :
    ∃ l : LoopInfo, l.backEdge = s.frame.instrPc ∧ l.state = .ready ∧
      (l ∈ (backEdge d s).state.profile.loops ∨
        l.recordDeopt ∈ (backEdge d s).state.profile.loops) := by
  rcases (backEdge_profile (d := d) hp).2 with ⟨-, -, hn⟩ | ⟨t, -, -, ⟨hpr, hn⟩ | ⟨hsome, hpr⟩⟩
  · exact absurd he hn
  · obtain ⟨c, hc⟩ := Option.ne_none_iff_exists'.1 fun h₀ => hn h₀ he
    obtain ⟨l, hl, hb, hr⟩ := poll_ready hc
    exact ⟨l, hb, hr, .inl (hpr ▸ hl)⟩
  · obtain ⟨c, hc⟩ := Option.isSome_iff_exists.1 hsome
    obtain ⟨l, hl, hb, hr⟩ := poll_ready hc
    have hrec : (s.poll d t).1.recordAt (s.frame.instrPc - d) s.frame.instrPc = l :=
      h.poll.recordAt_eq hl hb
    refine ⟨l, hb, hr, .inr ?_⟩
    rw [hpr, ← hrec]
    exact mem_withLoop_self

theorem not_enters_of_failedAt (hf : s.profile.FailedAt s.frame.instrPc) : ¬ s.entersLoop d := by
  rcases (backEdge_profile (d := d) hp).2 with ⟨-, -, hn⟩ | ⟨t, -, -, ⟨-, hn⟩ | ⟨hsome, -⟩⟩
  · exact hn
  · exact hn (h.poll_failed hf)
  · rw [Active.poll, h.poll_failed hf] at hsome
    cases hsome

end Step

end Act

/-! ### Runs of back-edges -/

/-- Back-edges made one after another on the profile at index `p` of the machine: each call
`(s, d)` is a back-edge `d` bytes back from the current instruction of an activation whose unit
keeps its profile at `p`, on a machine that holds there a profile with the loop records and the
compiled loops the call before left; its sites may have changed in between. -/
inductive BackEdgeRun (p : Nat) : Profile → List (Active × Nat) → Profile → Prop
  | nil (pr : Profile) : BackEdgeRun p pr [] pr
  | cons {pr pr₀ pr' : Profile} {s : Active} {d : Nat} {calls : List (Active × Nat)} :
      s.frame.code.profile = p → s.machine.profiles[p]? = some pr₀ → pr₀.loops = pr.loops →
      pr₀.compiled = pr.compiled → BackEdgeRun p (Act.backEdge d s).state.profile calls pr' →
      BackEdgeRun p pr ((s, d) :: calls) pr'

namespace BackEdgeRun

open Profile

variable {p : Nat} {pr pr' : Profile} {calls : List (Active × Nat)}

/-- The activation of a call reads a profile with the records and compiled loops the run holds,
which is as sound and as far on as the run's. -/
theorem profile_of_cons {s : Active} {pr₀ : Profile} (hs : s.frame.code.profile = p)
    (hpr : s.machine.profiles[p]? = some pr₀) (hl : pr₀.loops = pr.loops)
    (hc : pr₀.compiled = pr.compiled) :
    s.frame.code.profile < s.machine.profiles.size ∧ s.profile.compiled = pr.compiled ∧
      (pr.Sound → s.profile.Sound) ∧ pr.Later s.profile := by
  rw [← hs] at hpr
  have hprof := Active.profile_of_getElem? hpr
  refine ⟨(Array.getElem?_eq_some_iff.1 hpr).1, hprof ▸ hc, fun h => ?_, fun l hl' => ?_⟩
  · rw [hprof]
    exact ⟨by rw [backEdges, hl]; exact h.distinct, fun l hl' => h.rests l (hl ▸ hl')⟩
  · exact ⟨l, by rw [hprof, hl]; exact hl', .refl l⟩

theorem append {pr₁ pr₂ pr₃ : Profile} {xs ys : List (Active × Nat)}
    (h₁ : BackEdgeRun p pr₁ xs pr₂) (h₂ : BackEdgeRun p pr₂ ys pr₃) :
    BackEdgeRun p pr₁ (xs ++ ys) pr₃ := by
  induction h₁ with
  | nil => exact h₂
  | cons hs hpr hl hc _ ih => exact .cons hs hpr hl hc (ih h₂)

theorem sound (h : BackEdgeRun p pr calls pr') (hs : pr.Sound) : pr'.Sound := by
  induction h with
  | nil => exact hs
  | cons hcode hpr hl hc _ ih =>
    obtain ⟨hp, -, hsound, -⟩ := profile_of_cons hcode hpr hl hc
    exact ih (Act.sound_backEdge hp (hsound hs))

theorem later (h : BackEdgeRun p pr calls pr') : pr.Later pr' := by
  induction h with
  | nil => exact .refl _
  | cons hcode hpr hl hc _ ih =>
    obtain ⟨hp, -, -, hlater⟩ := profile_of_cons hcode hpr hl hc
    exact hlater.trans ((Act.later_backEdge hp).trans ih)

/-- Every back-edge of a run reads a profile at least as far on as the one the run starts from,
sound when that one is, and leaves one that the run's last profile is at least as far on as. -/
theorem call (h : BackEdgeRun p pr calls pr') :
    ∀ c ∈ calls, c.1.frame.code.profile < c.1.machine.profiles.size ∧ pr.Later c.1.profile ∧
      (Act.backEdge c.2 c.1).state.profile.Later pr' ∧ (pr.Sound → c.1.profile.Sound) := by
  induction h with
  | nil => exact fun _ hc => absurd hc List.not_mem_nil
  | @cons pr pr₀ pr₁ s d rest hcode hpr hl hcomp hrest ih =>
    obtain ⟨hp, -, hsound, hlater⟩ := profile_of_cons hcode hpr hl hcomp
    rintro c (_ | ⟨_, hc⟩)
    · exact ⟨hp, hlater, hrest.later, hsound⟩
    · obtain ⟨hpc, hlc, hend, hsc⟩ := ih c hc
      exact ⟨hpc, hlater.trans ((Act.later_backEdge hp).trans hlc), hend,
        fun hs => hsc (Act.sound_backEdge hp (hsound hs))⟩

/-- Every back-edge of a run that lands within the code with loops compiled has a record at the
end of the run. -/
theorem mem (h : BackEdgeRun p pr calls pr') :
    ∀ c ∈ calls, c.2 ≤ c.1.frame.instrPc → c.1.machine.config.osrThreshold.isSome →
      ∃ l ∈ pr'.loops, l.backEdge = c.1.frame.instrPc := by
  intro c hc hd ht
  obtain ⟨hp, -, hend, -⟩ := h.call c hc
  obtain ⟨l, hl, hb⟩ := Act.backEdge_mem hp hd ht
  obtain ⟨l', hl', hll⟩ := hend l hl
  exact ⟨l', hl', hll.backEdge.trans hb⟩

theorem not_compiles_of_settled (h : BackEdgeRun p pr calls pr') (hs : pr.Sound) {b : Nat}
    (hb : pr.Settled b) : ∀ c ∈ calls, c.1.compilesLoop c.2 → c.1.frame.instrPc ≠ b := by
  rintro c hc hcomp rfl
  obtain ⟨hp, hlater, -, hsound⟩ := h.call c hc
  exact (Act.backEdge_compiles hp (hsound hs) hcomp).1 (hlater.settled hb)

theorem compiles_pairwise (h : BackEdgeRun p pr calls pr') (hs : pr.Sound) :
    calls.Pairwise fun c c' => c.1.compilesLoop c.2 → c'.1.compilesLoop c'.2 →
      c.1.frame.instrPc ≠ c'.1.frame.instrPc := by
  induction h with
  | nil => exact .nil
  | @cons pr pr₀ pr₁ s d rest hcode hpr hl hc hrest ih =>
    obtain ⟨hp, -, hsound, -⟩ := profile_of_cons hcode hpr hl hc
    have hs₁ := Act.sound_backEdge (d := d) hp (hsound hs)
    refine .cons (fun c hc hcomp hcomp' => ?_) (ih hs₁)
    exact (hrest.not_compiles_of_settled hs₁ (Act.backEdge_compiles hp (hsound hs) hcomp).2 c hc
      hcomp').symm

/-- The loops a run compiles are the ones some of its back-edges compiled, one each, at
different back-edges, in the order they were compiled. -/
theorem compiled (h : BackEdgeRun p pr calls pr') (hs : pr.Sound) :
    ∃ cs : List (Active × Nat), cs.Sublist calls ∧
      cs.Pairwise (fun c c' => c.1.frame.instrPc ≠ c'.1.frame.instrPc) ∧
      ∃ ks : List CompiledLoop, pr'.compiled.toList = pr.compiled.toList ++ ks ∧
        List.Forall₂ (fun c k => c.1.compilesLoop c.2 ∧ c.1.loopCompiled c.2 = .ok k)
          cs ks := by
  induction h with
  | nil => exact ⟨[], .slnil, .nil, [], by simp, .nil⟩
  | @cons pr pr₀ pr₁ s d rest hcode hpr hl hcomp₀ hrest ih =>
    obtain ⟨hp, hprc, hsound, -⟩ := profile_of_cons hcode hpr hl hcomp₀
    have hs₁ := Act.sound_backEdge (d := d) hp (hsound hs)
    obtain ⟨cs, hsub, hpair, ks, hks, hall⟩ := ih hs₁
    rcases Act.backEdge_compiled (d := d) hp with hc | ⟨hcomp, k, hk, hc⟩
    · exact ⟨cs, hsub.cons _, hpair, ks, by rw [hks, hc, hprc], hall⟩
    · have hne : ∀ c ∈ cs, s.frame.instrPc ≠ c.1.frame.instrPc := fun c hc' =>
        (hrest.not_compiles_of_settled hs₁ (Act.backEdge_compiles hp (hsound hs) hcomp).2 c
          (hsub.subset hc') (((List.forall₂_and_left _ _).1 hall).1 c hc')).symm
      refine ⟨(s, d) :: cs, hsub.cons_cons _, .cons hne hpair, k :: ks, ?_,
        .cons ⟨hcomp, hk⟩ hall⟩
      rw [hks, hc, hprc]
      simp

theorem enters_ready (h : BackEdgeRun p pr calls pr') (hs : pr.Sound) :
    ∀ c ∈ calls, c.1.entersLoop c.2 → ∃ l : LoopInfo, l.backEdge = c.1.frame.instrPc ∧
      l.state = .ready ∧ (l ∈ (Act.backEdge c.2 c.1).state.profile.loops ∨
        l.recordDeopt ∈ (Act.backEdge c.2 c.1).state.profile.loops) := by
  intro c hc he
  obtain ⟨hp, -, -, hsound⟩ := h.call c hc
  exact Act.backEdge_enters_ready hp (hsound hs) he

/-- A failed record stays failed for the rest of a run, and its back-edge enters no compiled
code. -/
theorem failed (h : BackEdgeRun p pr calls pr') (hs : pr.Sound) {b : Nat} (hf : pr.FailedAt b) :
    (∀ c ∈ calls, c.1.frame.instrPc = b → ¬ c.1.entersLoop c.2) ∧ pr'.FailedAt b := by
  refine ⟨fun c hc hb => ?_, h.later.failedAt hf⟩
  obtain ⟨hp, hlater, -, hsound⟩ := h.call c hc
  exact Act.not_enters_of_failedAt hp (hsound hs) (hb ▸ hlater.failedAt hf)

/-- A run depends on the profile it starts from only through its loop records and compiled
loops. -/
theorem of_loops (h : BackEdgeRun p pr calls pr') {q : Profile} (hl : q.loops = pr.loops)
    (hc : q.compiled = pr.compiled) :
    ∃ q', BackEdgeRun p q calls q' ∧ q'.loops = pr'.loops ∧ q'.compiled = pr'.compiled := by
  cases h with
  | nil => exact ⟨q, .nil q, hl, hc⟩
  | cons hs hpr hl₀ hc₀ hrest =>
    exact ⟨pr', .cons hs hpr (hl₀.trans hl.symm) (hc₀.trans hc.symm) hrest, rfl, rfl⟩

end BackEdgeRun

/-! ### Back-edges between machines -/

namespace Machine

/-- The profile at `p` of `m'` holds the loop records and compiled loops that some run of
back-edges leaves from the profile at `p` of `m`, whatever its sites. -/
def BackEdgesTo (p : Nat) (m m' : Machine) : Prop :=
  ∀ pr, m.profiles[p]? = some pr → ∃ calls pr₁ pr', BackEdgeRun p pr calls pr₁ ∧
    m'.profiles[p]? = some pr' ∧ pr'.loops = pr₁.loops ∧ pr'.compiled = pr₁.compiled

namespace BackEdgesTo

variable {p : Nat} {m m' m'' : Machine}

theorem of_loops (h : ∀ pr, m.profiles[p]? = some pr →
    ∃ pr', m'.profiles[p]? = some pr' ∧ pr'.loops = pr.loops ∧ pr'.compiled = pr.compiled) :
    m.BackEdgesTo p m' := fun pr hpr => by
  obtain ⟨pr', hpr', hl, hc⟩ := h pr hpr
  exact ⟨[], pr, pr', .nil pr, hpr', hl, hc⟩

theorem of_profiles (h : m'.profiles = m.profiles) : m.BackEdgesTo p m' :=
  of_loops fun pr hpr => ⟨pr, h ▸ hpr, rfl, rfl⟩

theorem refl (m : Machine) (p : Nat) : m.BackEdgesTo p m := of_profiles rfl

theorem trans (h₁ : m.BackEdgesTo p m') (h₂ : m'.BackEdgesTo p m'') : m.BackEdgesTo p m'' := by
  intro pr hpr
  obtain ⟨calls₁, pr₁, q, hrun₁, hq, hl, hc⟩ := h₁ pr hpr
  obtain ⟨calls₂, pr₂, q', hrun₂, hq', hl', hc'⟩ := h₂ q hq
  obtain ⟨pr₃, hrun₃, hl₃, hc₃⟩ := hrun₂.of_loops hl.symm hc.symm
  exact ⟨calls₁ ++ calls₂, pr₃, q', hrun₁.append hrun₃, hq', hl'.trans hl₃.symm,
    hc'.trans hc₃.symm⟩

/-- A change of one profile that keeps its loop records and compiled loops, such as a new site. -/
theorem modify {g : Profile → Profile}
    (hg : ∀ pr, (g pr).loops = pr.loops ∧ (g pr).compiled = pr.compiled) (q : Nat) :
    m.BackEdgesTo p { m with profiles := m.profiles.modify q g } := by
  refine of_loops fun pr hpr => ?_
  by_cases hq : q = p
  · subst hq
    exact ⟨g pr, by simp [Array.getElem?_modify, hpr], hg pr⟩
  · exact ⟨pr, by simpa [Array.getElem?_modify, hq] using hpr, rfl, rfl⟩

end BackEdgesTo

end Machine

theorem Profile.sound_new (n : Nat) : (Profile.new n).Sound :=
  ⟨List.nodup_nil, nofun⟩

/-! ### Loop profiling cannot thrash -/

/-- Over every run of back-edges on the profile of a unit, from a fresh profile through `q` and
on to `pr`, made by any activations of units that share the profile, under any thresholds: each
back-edge has at most one record, and one once it has counted an iteration; two back-edges that
compile their loops are at different offsets, and the compiled loops of the profile are what
those compilations gave, one for each of some of them; a back-edge enters compiled code only
from a ready record, which it leaves ready or with the guard failure counted; and a record that
had counted `maxLoopDeopts` guard failures at `q` is failed from then on, and its back-edge enters
no compiled code again. -/
theorem back_edges_never_thrash {p n : Nat} {pre post : List (Active × Nat)} {q pr : Profile}
    (hpre : BackEdgeRun p (Profile.new n) pre q) (hpost : BackEdgeRun p q post pr) :
    pr.backEdges.Nodup ∧
      (∀ c ∈ pre ++ post, c.2 ≤ c.1.frame.instrPc →
        c.1.machine.config.osrThreshold.isSome → ∃ l ∈ pr.loops, l.backEdge = c.1.frame.instrPc) ∧
      (pre ++ post).Pairwise (fun c c' => c.1.compilesLoop c.2 → c'.1.compilesLoop c'.2 →
        c.1.frame.instrPc ≠ c'.1.frame.instrPc) ∧
      (∃ cs : List (Active × Nat), cs.Sublist (pre ++ post) ∧
        cs.Pairwise (fun c c' => c.1.frame.instrPc ≠ c'.1.frame.instrPc) ∧
        List.Forall₂ (fun c k => c.1.compilesLoop c.2 ∧ c.1.loopCompiled c.2 = .ok k) cs
          pr.compiled.toList) ∧
      (∀ c ∈ pre ++ post, c.1.entersLoop c.2 → ∃ l : LoopInfo,
        l.backEdge = c.1.frame.instrPc ∧ l.state = .ready ∧
          (l ∈ (Act.backEdge c.2 c.1).state.profile.loops ∨
            l.recordDeopt ∈ (Act.backEdge c.2 c.1).state.profile.loops)) ∧
      ∀ l ∈ q.loops, maxLoopDeopts ≤ l.deopts →
        (∀ c ∈ post, c.1.frame.instrPc = l.backEdge → ¬ c.1.entersLoop c.2) ∧
          ∃ l' ∈ pr.loops, l'.backEdge = l.backEdge ∧ l'.state = .failed := by
  have hs := Profile.sound_new n
  have hrun := hpre.append hpost
  have hq := hpre.sound hs
  obtain ⟨cs, hsub, hpair, ks, hks, hall⟩ := hrun.compiled hs
  have hcomp : pr.compiled.toList = ks := by simpa [Profile.new] using hks
  refine ⟨(hrun.sound hs).distinct, hrun.mem, hrun.compiles_pairwise hs,
    ⟨cs, hsub, hpair, hcomp ▸ hall⟩, hrun.enters_ready hs, fun l hl hd => ?_⟩
  exact hpost.failed hq ⟨l, hl, rfl, (hq.rests l hl).abandoned hd⟩

/-- An activation of `spinUnit` at its back-edge, on a machine that keeps a fresh profile for
the unit and compiles a loop once it has counted one iteration. -/
def spinAtBackEdge : Active :=
  ⟨{ config := { osrThreshold := some 1 }, profiles := #[Profile.new 4] },
    { Act.spinActive.frame with instrPc := 1 }⟩

theorem spin_back_edge_never_thrashes :
    BackEdgeRun 0 (Profile.new 4) [(spinAtBackEdge, 1)]
        (Act.backEdge 1 spinAtBackEdge).state.profile ∧
      BackEdgeRun 0 (Act.backEdge 1 spinAtBackEdge).state.profile []
        (Act.backEdge 1 spinAtBackEdge).state.profile ∧
      (Act.backEdge 1 spinAtBackEdge).state.profile.backEdges.Nodup ∧
      (∀ c ∈ [(spinAtBackEdge, 1)] ++ [], c.2 ≤ c.1.frame.instrPc →
        c.1.machine.config.osrThreshold.isSome →
          ∃ l ∈ (Act.backEdge 1 spinAtBackEdge).state.profile.loops,
            l.backEdge = c.1.frame.instrPc) ∧
      ([(spinAtBackEdge, 1)] ++ [] : List (Active × Nat)).Pairwise (fun c c' =>
        c.1.compilesLoop c.2 → c'.1.compilesLoop c'.2 → c.1.frame.instrPc ≠ c'.1.frame.instrPc) ∧
      (∃ cs : List (Active × Nat), cs.Sublist ([(spinAtBackEdge, 1)] ++ []) ∧
        cs.Pairwise (fun c c' => c.1.frame.instrPc ≠ c'.1.frame.instrPc) ∧
        List.Forall₂ (fun c k => c.1.compilesLoop c.2 ∧ c.1.loopCompiled c.2 = .ok k) cs
          (Act.backEdge 1 spinAtBackEdge).state.profile.compiled.toList) ∧
      (∀ c ∈ [(spinAtBackEdge, 1)] ++ [], c.1.entersLoop c.2 → ∃ l : LoopInfo,
        l.backEdge = c.1.frame.instrPc ∧ l.state = .ready ∧
          (l ∈ (Act.backEdge c.2 c.1).state.profile.loops ∨
            l.recordDeopt ∈ (Act.backEdge c.2 c.1).state.profile.loops)) ∧
      ∀ l ∈ (Act.backEdge 1 spinAtBackEdge).state.profile.loops, maxLoopDeopts ≤ l.deopts →
        (∀ c ∈ ([] : List (Active × Nat)), c.1.frame.instrPc = l.backEdge →
          ¬ c.1.entersLoop c.2) ∧
          ∃ l' ∈ (Act.backEdge 1 spinAtBackEdge).state.profile.loops,
            l'.backEdge = l.backEdge ∧ l'.state = .failed :=
  ⟨.cons rfl rfl rfl rfl (.nil _), .nil _,
    back_edges_never_thrash (.cons rfl rfl rfl rfl (.nil _)) (.nil _)⟩

end StackVm
