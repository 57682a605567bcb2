import StackVm.Proofs.Activation.Unwinding
import StackVm.Proofs.Engine.Sites

/-! The count of activations in progress.  The engine's depth counts the activations running:
running a function counts one more before its frame is made (refusing with a `RecursionError`
at the limit) and one less on every way out, and nothing else changes the count.

`Act.Within` follows calls inward from a function run by an operation: the states of the run of
its frame, and the states of the frames of the functions those states call, one activation
deeper each time.  In each of them the depth is the operation's starting depth plus the number
of activations in progress, and a call made there is refused with a `RecursionError` exactly
when one more activation would pass the limit. -/

namespace StackVm

namespace Act

open EStateM

variable {α β : Type}

/-- A computation that finishes on every state and changes only sites and their counters. -/
def Bookkeeps (x : Act α) : Prop :=
  ∀ s, ∃ a s', x s = .ok a s' ∧ s'.frame = s.frame ∧ s'.machine.erase = s.machine.erase

namespace Bookkeeps

variable {x y : Act α} {f : α → Act β}

protected theorem pure (a : α) : Bookkeeps (Pure.pure a : Act α) := fun s => ⟨a, s, rfl, rfl, rfl⟩

protected theorem bind (hx : Bookkeeps x) (hf : ∀ a, Bookkeeps (f a)) : Bookkeeps (x >>= f) := by
  intro s
  obtain ⟨a, s₁, hx₁, hfr₁, he₁⟩ := hx s
  obtain ⟨b, s₂, hf₂, hfr₂, he₂⟩ := hf a s₁
  exact ⟨b, s₂, (run_bind_of_ok hx₁).trans hf₂, hfr₂.trans hfr₁, he₂.trans he₁⟩

protected theorem ite {c : Prop} [Decidable c] (hx : c → Bookkeeps x) (hy : ¬ c → Bookkeeps y) :
    Bookkeeps (if c then x else y) := by
  split
  · exact hx ‹_›
  · exact hy ‹_›

protected theorem readsMachine (g : Machine → α) : Bookkeeps (readsMachine g) :=
  fun s => ⟨_, s, rfl, rfl, rfl⟩

protected theorem site : Bookkeeps site := fun s => ⟨_, s, rfl, rfl, rfl⟩

protected theorem setSite (st : Site) : Bookkeeps (setSite st) :=
  fun _ => ⟨(), _, rfl, rfl, Machine.erase_withSite _ _ _⟩

protected theorem count {g : Stats → Stats}
    (hg : ∀ st : Stats, { g st with cacheHits := 0, cacheMisses := 0, resolvedSites := 0 } =
      { st with cacheHits := 0, cacheMisses := 0, resolvedSites := 0 }) :
    Bookkeeps (count g) := by
  rintro ⟨m, fr⟩
  exact ⟨(), _, rfl, rfl, by simp only [Machine.erase, hg]⟩

end Bookkeeps

/-- How a call instruction goes on from the run of what it called: the caller's exception context
comes back, and the result is pushed on the caller's frame. -/
def callReturn (fr : Frame) (saved : Option Addr) :
    EStateM.Result Fault Machine Value → EStateM.Result Fault Active StepResult
  | .ok v m => (push v >>= fun _ => pure .next) ⟨{ m with context := saved }, fr⟩
  | .error e m => .error e ⟨{ m with context := saved }, fr⟩

/-- The states of activations nested by calls inside a run of a function from the machine `m₀`,
with the nesting levels left to each and the number of activations in progress at it.  The first
activation runs the function's frame, made one level deeper than `m₀`; a call made in an
activation, which runs a function and then returns, runs that function's frame one level deeper
than the machine it is called on. -/
inductive Within (m₀ : Machine) : Nat → Nat → Active → Prop
  | entered {n : Nat} {fn : Addr} {args : Array Value} {frame : Frame} {m₁ : Machine}
      {s t : Active} :
      m₀.depth < m₀.config.maxDepth →
      Vm.newFrame fn args { m₀ with depth := m₀.depth + 1 } = .ok frame m₁ →
      enterFrame m₁ frame .start = .ok () s → Runs (kit n) s t → Within m₀ n 1 t
  | called {n j : Nat} {t : Active} {fr : Frame} {saved : Option Addr} {fn : Addr}
      {args : Array Value} {m m₁ : Machine} {frame : Frame} {s t' : Active} :
      Within m₀ (n + 1) j t →
      step (kit (n + 1)) t = callReturn fr saved (Vm.runFunction (kit n) fn args m) →
      m.depth < m.config.maxDepth →
      Vm.newFrame fn args { m with depth := m.depth + 1 } = .ok frame m₁ →
      enterFrame m₁ frame .start = .ok () s → Runs (kit n) s t' → Within m₀ n (j + 1) t'

theorem depth_of_entered {n : Nat} {m m₁ : Machine} {fn : Addr} {args : Array Value}
    {frame : Frame} {s t : Active}
    (hnew : Vm.newFrame fn args { m with depth := m.depth + 1 } = .ok frame m₁)
    (hs : enterFrame m₁ frame .start = .ok () s) (hr : Runs (kit n) s t) :
    t.machine.depth = m.depth + 1 := by
  have h₁ := Vm.steady_newFrame fn args { m with depth := m.depth + 1 }
  rw [hnew] at h₁
  cases hs
  rw [(hr.steady (kit_steady n)).machine.depth]
  exact h₁.depth

theorem callReturn_depth (fr : Frame) (saved : Option Addr)
    (r : EStateM.Result Fault Machine Value) :
    (callReturn fr saved r).state.machine.depth = r.state.depth := by
  cases r with
  | ok v m =>
    have h : Steady (push v >>= fun _ => pure StepResult.next) :=
      (steady_push v).bind fun _ => Keeps.pure _
    exact (h ⟨{ m with context := saved }, fr⟩).machine.depth
  | error e m => rfl

theorem depth_of_callReturn {n : Nat} {t : Active} {fr : Frame} {saved : Option Addr} {fn : Addr}
    {args : Array Value} {m : Machine}
    (h : step (kit (n + 1)) t = callReturn fr saved (Vm.runFunction (kit n) fn args m)) :
    m.depth = t.machine.depth := by
  have hstep := steady_step (kit_steady (n + 1)) t
  have hrun := Vm.steady_runFunction (kit_steady n) fn args m
  rw [h] at hstep
  rw [← hstep.machine.depth, callReturn_depth, hrun.depth]

/-- The depth is the count of activations in progress, on top of the depth the run started
from: by induction on the nesting, each call's frame is one level deeper than its caller's. -/
theorem Within.depth {m₀ : Machine} {n j : Nat} {t : Active} (hw : Within m₀ n j t) :
    t.machine.depth = m₀.depth + j := by
  induction hw with
  | entered _ hnew hs hr => exact depth_of_entered hnew hs hr
  | called _ hlink _ hnew hs hr ih =>
    rw [depth_of_entered hnew hs hr, depth_of_callReturn hlink, ih, Nat.add_assoc]

end Act

end StackVm
