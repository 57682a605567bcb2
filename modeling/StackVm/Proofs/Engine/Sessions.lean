import StackVm.Proofs.Engine.Requests

/-! Sessions: requests served one after another on one machine, whose profiles persist from one
request to the next.  Each request is served on a sound machine (`Request.served`), so by
induction on the session the machine stays sound, every generator only moves forward, and a
session served on the machine with its specialization erased answers alike, request by request,
and ends on the erased final machine.  Starting from a fresh machine whose host objects agree on
their layouts, specialization is therefore invisible to a client
(`specialization_invisible`). -/

namespace StackVm

namespace Request

variable {r : Request} {m : Machine}

theorem outcome_snd (r : Request) (m : Machine) : (r.outcome m).2 = (r.run m).state := by
  unfold outcome
  cases r.run m <;> rfl

theorem outcome_erase (hr : r.Allowed) (hs : m.Sound) (hco : m.heap.HostsCoherent) :
    r.outcome m.erase = ((r.outcome m).1, (r.outcome m).2.erase) := by
  unfold outcome
  rw [(Request.served hr hs).erase hco]
  cases r.run m <;> rfl

theorem outcome_sound (hr : r.Allowed) (hs : m.Sound) : (r.outcome m).2.Sound := by
  rw [outcome_snd]
  exact (Request.served hr hs).sound

theorem outcome_hosts (hr : r.Allowed) (hs : m.Sound) (hco : m.heap.HostsCoherent) :
    (r.outcome m).2.heap.HostsCoherent := by
  rw [outcome_snd]
  exact (Request.served hr hs).hosts hco

end Request

section Session

variable {rs : List Request}

theorem serve_cons (r : Request) (rs : List Request) (m : Machine) :
    serve (r :: rs) m =
      ((r.outcome m).1 :: (serve rs (r.outcome m).2).1, (serve rs (r.outcome m).2).2) := rfl

theorem serve_sound (hr : ∀ r ∈ rs, r.Allowed) {m : Machine} (hs : m.Sound) :
    (serve rs m).2.Sound := by
  induction rs generalizing m with
  | nil => exact hs
  | cons r rs ih =>
    obtain ⟨hr₁, hrs⟩ := List.forall_mem_cons.1 hr
    exact ih hrs (Request.outcome_sound hr₁ hs)

/-- Along a session every generator only moves forward: `started` and `finished` never go
back, and the generator stays at its address. -/
theorem serve_generators_stay (hr : ∀ r ∈ rs, r.Allowed) {m : Machine} (hs : m.Sound)
    {g : Addr} {G : Generator} (hg : m.heap.get? g = some (.generator G)) :
    ∃ G', (serve rs m).2.heap.get? g = some (.generator G') ∧ G.Stays G' := by
  induction rs generalizing m G with
  | nil => exact ⟨G, hg, .refl G⟩
  | cons r rs ih =>
    obtain ⟨hr₁, hrs⟩ := List.forall_mem_cons.1 hr
    obtain ⟨G₁, hg₁, hst₁⟩ := (Request.served hr₁ hs).generators g G hg
    rw [← Request.outcome_snd] at hg₁
    obtain ⟨G₂, hg₂, hst₂⟩ := ih hrs (Request.outcome_sound hr₁ hs) hg₁
    exact ⟨G₂, hg₂, hst₁.trans hst₂⟩

/-- A session served on the erased machine answers alike, request by request, and ends on the
erased final machine, while the host objects agree on their layouts. -/
theorem serve_erase (hr : ∀ r ∈ rs, r.Allowed) {m : Machine} (hs : m.Sound)
    (hco : m.heap.HostsCoherent) :
    serve rs m.erase = ((serve rs m).1, (serve rs m).2.erase) := by
  induction rs generalizing m with
  | nil => rfl
  | cons r rs ih =>
    obtain ⟨hr₁, hrs⟩ := List.forall_mem_cons.1 hr
    rw [serve_cons, serve_cons, Request.outcome_erase hr₁ hs hco,
      ih hrs (Request.outcome_sound hr₁ hs) (Request.outcome_hosts hr₁ hs hco)]

end Session

/-- Specialization is invisible: a session served on a fresh machine that specializes answers
every request as the same session served on one that does not, and ends on the same store,
namespaces and containers, with only what the sites remember erased.  The host objects are
those that agree on their layouts. -/
theorem specialization_invisible (config : Config) (fastPaths : Bool) {hosts : List HostObject}
    (hagree : HostsAgree hosts) {rs : List Request} (hr : ∀ r ∈ rs, r.Allowed) :
    serve rs (Machine.ready { config with specialize := false } fastPaths hosts) =
      ((serve rs (Machine.ready { config with specialize := true } fastPaths hosts)).1,
        (serve rs (Machine.ready { config with specialize := true } fastPaths hosts)).2.erase) := by
  have hco : (Machine.ready { config with specialize := true } fastPaths hosts).heap.HostsCoherent :=
    hagree.coherent
  have h := serve_erase hr Machine.sound_ready hco
  rw [Machine.erase_ready] at h
  exact h

/-- A call of an exception class, served with and without specialization. -/
theorem raised_class_unspecialized :
    serve [.call (.excType .valueError) #[]] (Machine.ready { specialize := false } false []) =
      ((serve [.call (.excType .valueError) #[]] (Machine.ready { specialize := true } false [])).1,
        (serve [.call (.excType .valueError) #[]]
          (Machine.ready { specialize := true } false [])).2.erase) :=
  specialization_invisible {} false (fun _ h => absurd h List.not_mem_nil)
    fun r h => by
      rw [List.mem_singleton] at h
      subst h
      trivial

end StackVm
