import StackVm.Proofs.Activation.Search

/-! Tracebacks.  An exception that leaves an activation has been through the activation's
handler search, which appends the activation's entry to its traceback: the code unit, the
offset of the instruction that raised it or made the call it came out of, and the line of that
offset.  An entry equal to the last one is not appended again, so an exception that passes
through several activations of one unit at one offset, as a recursion does, records them once.

`Act.Runs` names the states an activation's instruction loop passes through: instructions that
go on, and failures that a handler of the frame takes.  The loop fails with an exception only
at an instruction that failed with it and that no handler covers. -/

namespace StackVm

namespace Exc

theorem traceback_pushTrace_congr {e e' : Exc} (h : e'.traceback = e.traceback) (t : TraceEntry) :
    (e'.pushTrace t).traceback = (e.pushTrace t).traceback := by
  unfold pushTrace
  by_cases hb : (e.traceback.back? == some t) = true
  · simp only [h, hb, ↓reduceIte]
  · simp only [h, hb, Bool.false_eq_true, ↓reduceIte]

theorem back?_pushTrace (e : Exc) (t : TraceEntry) : (e.pushTrace t).traceback.back? = some t := by
  unfold pushTrace
  split
  · next hb => exact eq_of_beq hb
  · exact Array.back?_push

/-- Entries no two neighbours of which are equal, appended to a traceback that does not end with
the first of them, are all kept, in order. -/
theorem traceback_foldl_pushTrace :
    ∀ {e : Exc} {es : List TraceEntry}, (e.traceback.back?.toList ++ es).IsChain (· ≠ ·) →
      (es.foldl pushTrace e).traceback = e.traceback ++ es.toArray
  | e, [], _ => by simp
  | e, t :: es, h => by
    have hne : e.traceback.back? ≠ some t := by
      intro hb
      rw [hb, Option.toList_some, List.singleton_append, List.isChain_cons_cons] at h
      exact h.1 rfl
    have hpush : (e.pushTrace t).traceback = e.traceback.push t := by
      unfold pushTrace
      rw [if_neg (by simpa using hne)]
    have hrest : ((e.pushTrace t).traceback.back?.toList ++ es).IsChain (· ≠ ·) := by
      rw [back?_pushTrace, Option.toList_some, List.singleton_append]
      exact h.right_of_append
    rw [List.foldl_cons, traceback_foldl_pushTrace hrest, hpush, List.toArray_cons,
      Array.push_eq_append, Array.append_assoc]

end Exc

namespace Act

open EStateM

variable {k : Kit}

/-- The handler search lets a failure go only for an exception that no handler covers, after
appending the current instruction's entry to the traceback it had. -/
theorem unwind_escapes {err : Fault} {t s : Active} {a : Addr}
    (h : unwind err t = .error (.raise a) s) :
    err = .raise a ∧ t.frame.unit.handlers.find t.frame.instrPc = none ∧
      ∃ e e', t.machine.heap.get? a = some (.exception e) ∧
        s.machine.heap.get? a = some (.exception e') ∧
        e'.traceback = (e.pushTrace t.frame.traceEntry).traceback := by
  cases err with
  | internal ie => cases h
  | exhausted => cases h
  | raise exc =>
    cases hx : Vm.exc exc t.machine with
    | error f m₁ =>
      rw [unwind.eq_1, run_bind_of_error (vm_of_error hx)] at h
      obtain ⟨ie, rfl⟩ := Vm.exc_faults hx
      cases h
    | ok e m₁ =>
      obtain ⟨rfl, he⟩ := Vm.exc_ok hx
      obtain ⟨hstate, hleaves⟩ := unwind_raise he
      obtain ⟨rfl, hfind⟩ := hleaves a s h
      rw [h] at hstate
      refine ⟨rfl, hfind, e, _, he, hstate, Exc.traceback_pushTrace_congr ?_ _⟩
      split <;> rfl

/-- One turn of the instruction loop that goes on: an instruction that goes on, or one that
fails and is taken by a handler of the frame. -/
inductive Advances (k : Kit) : Active → Active → Prop
  | next {s t : Active} : step k s = .ok .next t → Advances k s t
  | caught {s t u : Active} {err : Fault} :
      step k s = .error err t → unwind err t = .ok () u → Advances k s u

/-- The states the instruction loop passes through from a state. -/
abbrev Runs (k : Kit) : Active → Active → Prop := Relation.ReflTransGen (Advances k)

theorem Advances.steady (hk : k.Steady) {s t : Active} (h : Advances k s t) :
    Active.Steady s t := by
  cases h with
  | next hs =>
    have h₁ := steady_step hk s
    rwa [hs] at h₁
  | @caught t' _ err hs hu =>
    have h₁ := steady_step hk s
    have h₂ := steady_unwind err t'
    rw [hs] at h₁
    rw [hu] at h₂
    exact trans_of _ h₁ h₂

theorem Runs.steady (hk : k.Steady) {s t : Active} (h : Runs k s t) : Active.Steady s t := by
  induction h with
  | refl => exact refl_of _ _
  | tail _ hadv ih => exact trans_of _ ih (hadv.steady hk)

/-- The loop fails with an exception only after a run of turns, at an instruction that failed
and whose failure the handler search let go. -/
theorem execLoop_raise {fuel : Nat} {s s' : Active} {a : Addr}
    (h : execLoop k fuel s = .error (.raise a) s') :
    ∃ t u err, Runs k s t ∧ step k t = .error err u ∧ unwind err u = .error (.raise a) s' := by
  induction fuel generalizing s with
  | zero => cases h
  | succ fuel ih =>
    simp only [execLoop] at h
    split at h
    · next t hs =>
      obtain ⟨t', u, err, hr, hst, hu⟩ := ih h
      exact ⟨t', u, err, Relation.ReflTransGen.head (.next hs) hr, hst, hu⟩
    · cases h
    · next err t hs =>
      split at h
      · next u hu =>
        obtain ⟨t', u', err', hr, hst, hu'⟩ := ih h
        exact ⟨t', u', err', Relation.ReflTransGen.head (.caught hs hu) hr, hst, hu'⟩
      · next e u hu =>
        cases h
        exact ⟨s, t, err, .refl, hs, hu⟩

theorem enterFrame_code {m : Machine} {frame : Frame} {resume : Resume} {s : Active}
    (h : enterFrame m frame resume = .ok () s) : s.frame.code = frame.code := by
  have hs := steady_enterFrame m frame resume
  rw [h] at hs
  exact hs.code

/-- A function of one argument that calls it on `None`, as `def f(x): return x(None)`. -/
def selfCaller : CodeUnit :=
  { (default : CodeUnit) with
    name := "f", bytecode := ⟨#[17, 0, 8, 78, 92]⟩, localNames := #["x"], argCount := 1,
    stackSize := 2, firstLine := 1 }

/-- The code of `selfCaller`, a function of it and its namespace, at addresses 0 to 2. -/
def selfCallerMachine : Machine :=
  { heap := ⟨#[.code { unit := selfCaller, strings := #[], bigInts := #[], bytes := #[], profile := 0 },
      .function { code := 0, globals := 2, defaults := #[], closure := #[] }, .globals {}]⟩,
    profiles := #[Profile.new 5] }

/-- An activation of `selfCaller` on `None`. -/
def selfCallerFrame : Frame :=
  { code := { unit := selfCaller, strings := #[], bigInts := #[], bytes := #[], profile := 0 },
    codeRef := 0, globals := 2, locals := #[some .none], derefs := #[] }

/-- The traceback of the exception a run raised, if it raised one. -/
def raisedTraceback {α : Type} : EStateM.Result Fault Machine α → Option (Array TraceEntry)
  | .error (.raise a) m =>
    match m.heap.get? a with
    | some (.exception e) => some e.traceback
    | _ => none
  | _ => none

/-- `f(f)` raises from two activations of `f`, both at the call at offset 3, and the traceback
holds one entry for both. -/
theorem recursion_traced_once :
    raisedTraceback (Vm.invoke 0 2 #[.ref 1] #[] selfCallerMachine) = some #[⟨"f", 3, 1⟩] := by
  decide +kernel

end Act

end StackVm
