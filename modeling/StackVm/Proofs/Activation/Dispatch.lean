import StackVm.Proofs.Activation.Search
import StackVm.Code.Validate

/-! Handler dispatch.  Checking a unit guarantees two things of its handler table: every range
restores a depth within the operand stack bound, and no range comes before a range it strictly
encloses (`CodeUnit.HandlersChecked`).  The search takes the first range that covers the failing
instruction, so in a checked unit it takes one that strictly encloses no other covering range.
`Act.dispatch` then cuts the stack back, pushes the exception and enters the handler.  The main
statement, `Act.unwind_dispatches_to_innermost_range`, says all of it for a raise at any
instruction of a checked unit, with the one way the search can fail: a range whose depth is the
whole bound, caught with a full stack, leaves no room to push the exception. -/

namespace StackVm

namespace HandlerRange

@[simp] theorem strictlyEncloses_self (r : HandlerRange) : r.strictlyEncloses r = false := by
  simp [strictlyEncloses]

end HandlerRange

namespace CodeUnit

variable {u : CodeUnit}

/-- What checking a unit guarantees of its handler table: every range restores a depth within
the stack bound, and no range comes before a range it strictly encloses. -/
structure HandlersChecked (u : CodeUnit) : Prop where
  depth_le : ∀ r ∈ u.handlers.toList, r.depth ≤ u.stackSize
  ordered : ∀ l₁ r l₂, u.handlers.toList = l₁ ++ r :: l₂ →
    ∀ r' ∈ l₂, r.strictlyEncloses r' = false

/-- The checks of the ranges from some index on: each depth fits the bound, and no range
strictly encloses a range after it. -/
theorem checkHandlers_ok {isStart : Nat → Bool} :
    ∀ {k : Nat} {rs : List HandlerRange}, u.checkHandlers isStart k rs = .ok () →
      (∀ r ∈ rs, r.depth ≤ u.stackSize) ∧
      ∀ l₁ r l₂, rs = l₁ ++ r :: l₂ → ∀ r' ∈ l₂, r.strictlyEncloses r' = false
  | _, [], _ => ⟨by simp, fun l₁ _ _ h => by simp at h⟩
  | k, r :: later, h => by
    simp only [checkHandlers] at h
    split at h
    · cases h
    split at h
    · cases h
    split at h
    · cases h
    rename_i hdepth
    split at h
    · cases h
    rename_i hfirst
    obtain ⟨hdepths, hordered⟩ := checkHandlers_ok h
    have hfree : ∀ r' ∈ later, r.strictlyEncloses r' = false := by
      simpa using List.findIdx?_eq_none_iff.1 hfirst
    refine ⟨fun r' hr' => ?_, fun l₁ r₀ l₂ heq => ?_⟩
    · rcases List.mem_cons.1 hr' with rfl | hr'
      · omega
      · exact hdepths r' hr'
    · cases l₁ with
      | nil =>
        cases heq
        exact hfree
      | cons x l₁ =>
        cases heq
        exact hordered l₁ r₀ l₂ rfl

theorem handlersChecked_of_validate {isCode : Value → Bool} (hv : u.validate isCode = .ok ()) :
    u.HandlersChecked := by
  unfold validate at hv
  simp only [bind, Except.bind] at hv
  split at hv
  · simp [throw, throwThe, MonadExceptOf.throw] at hv
  · split at hv
    · contradiction
    · split at hv
      · contradiction
      · split at hv
        · contradiction
        · have hchecked : ∃ isStart, u.checkHandlers isStart 0 u.handlers.toList = .ok () := by
            split at hv
            · cases hv
            · split at hv
              · cases hv
              · exact ⟨_, hv⟩
          obtain ⟨isStart, hc⟩ := hchecked
          obtain ⟨hdepths, hordered⟩ := checkHandlers_ok hc
          exact ⟨hdepths, hordered⟩

/-- In a checked unit the range the search takes for an offset covers it, and strictly encloses
no other range that covers it: a range before it does not cover the offset, and a range after it
is not strictly inside it. -/
theorem find_innermost (hc : u.HandlersChecked) {o : Nat} {r : HandlerRange}
    (h : u.handlers.find o = some r) :
    r.contains o = true ∧
      ∀ r' ∈ u.handlers.toList, r'.contains o = true → r.strictlyEncloses r' = false := by
  unfold HandlerTable.find at h
  rw [← Array.find?_toList, List.find?_eq_some_iff_append] at h
  obtain ⟨hr, before, after, heq, hbefore⟩ := h
  refine ⟨hr, fun r' hr' hcov => ?_⟩
  rw [heq] at hr'
  rcases List.mem_append.1 hr' with hb | ha
  · simpa [hcov] using hbefore r' hb
  · rcases List.mem_cons.1 ha with rfl | ha
    · exact HandlerRange.strictlyEncloses_self r'
    · exact hc.ordered before r after heq r' ha

end CodeUnit

/-- The handlers a catch keeps are those entered before the first one whose range the catching
range encloses: none of them lies inside it, and the first one it leaves does. -/
theorem HandlerRange.keptHandled_spec (r : HandlerRange) (hs : Array Handled) :
    ∃ rest, hs.toList = (r.keptHandled hs).toList ++ rest ∧
      (∀ hd ∈ (r.keptHandled hs).toList, r.encloses hd.range = false) ∧
      ∀ hd ∈ rest.head?, r.encloses hd.range = true := by
  unfold keptHandled
  cases h : hs.findIdx? (fun hd => r.encloses hd.range) with
  | none =>
    refine ⟨[], by simp, fun hd hd_mem => ?_, by simp⟩
    simpa using Array.findIdx?_eq_none_iff.1 h hd (by simpa using hd_mem)
  | some i =>
    obtain ⟨hi, hfirst, hbefore⟩ := Array.findIdx?_eq_some_iff_getElem.1 h
    refine ⟨hs.toList.drop i, ?_, fun hd hd_mem => ?_, fun hd hd_mem => ?_⟩
    · simp
    · simp only [Array.toList_extract, List.extract_eq_take_drop, List.drop_zero,
        List.mem_take_iff_getElem] at hd_mem
      obtain ⟨j, hj, rfl⟩ := hd_mem
      simpa using hbefore j (by omega)
    · rw [List.head?_drop, Array.getElem?_toList, Array.getElem?_eq_getElem hi] at hd_mem
      cases hd_mem
      exact hfirst

namespace Act

open EStateM

/-! ### Dispatching to a handler -/

theorem push_of_lt (v : Value) {s : Active} (h : s.frame.stack.size < s.frame.unit.stackSize) :
    push v s = .ok () ⟨s.machine, { s.frame with stack := s.frame.stack.push v }⟩ := by
  unfold push
  rw [reads_bind_run, if_neg (by simpa using h)]
  rfl

theorem push_of_full (v : Value) {s : Active} (h : s.frame.unit.stackSize ≤ s.frame.stack.size) :
    push v s = .error (.internal (.stackOverflow s.frame.unit.name s.frame.instrPc)) s := by
  unfold push
  rw [reads_bind_run, if_pos (by simpa using h)]
  rfl

theorem dispatch_uncovered (E : Addr) {s : Active}
    (h : s.frame.unit.handlers.find s.frame.instrPc = none) :
    dispatch E s = .error (.raise E) ⟨s.machine, { s.frame with handled := #[] }⟩ := by
  unfold dispatch
  rw [reads_bind_run, h]
  rfl

/-- A covering range with room below the bound takes the exception: the stack is cut back to its
depth with the exception on top, and the handler is entered. -/
theorem dispatch_covered (E : Addr) {s : Active} {r : HandlerRange}
    (h : s.frame.unit.handlers.find s.frame.instrPc = some r)
    (hroom : min r.depth s.frame.stack.size < s.frame.unit.stackSize) :
    dispatch E s = .ok () ⟨s.machine, { s.frame with
      stack := (s.frame.stack.take r.depth).push (.ref E),
      handled := (r.keptHandled s.frame.handled).push ⟨E, r⟩, pc := r.handler }⟩ := by
  unfold dispatch
  rw [reads_bind_run, h]
  dsimp only
  have hlt : (s.frame.stack.shrink r.depth).size < s.frame.unit.stackSize := by
    rwa [Array.size_shrink]
  rw [modifyFrame_bind_run, run_bind_of_ok (push_of_lt _ hlt)]
  simp only [Array.shrink_eq_take]
  rfl

theorem dispatch_overflows (E : Addr) {s : Active} {r : HandlerRange}
    (h : s.frame.unit.handlers.find s.frame.instrPc = some r)
    (hfull : s.frame.unit.stackSize ≤ min r.depth s.frame.stack.size) :
    ∃ s', dispatch E s = .error (.internal (.stackOverflow s.frame.unit.name s.frame.instrPc)) s' := by
  unfold dispatch
  rw [reads_bind_run, h]
  dsimp only
  have hge : s.frame.unit.stackSize ≤ (s.frame.stack.shrink r.depth).size := by
    rwa [Array.size_shrink]
  rw [modifyFrame_bind_run, run_bind_of_error (push_of_full _ hge)]
  exact ⟨_, rfl⟩

/-- Handler dispatch in a checked unit, for an exception raised at the current instruction `o`
of a frame whose operand stack fits the unit's bound.  When a range covers `o`, the search takes
a range that covers it and strictly encloses no other range that covers it.  If the range's
depth or the stack leaves room below the bound, the handler is entered: the stack is cut back to
the range's depth with the exception pushed on it, the handlers entered inside the range are
left and the exception's handler is entered.  The search fails with an operand stack overflow
exactly when the range restores the whole bound and the stack is full, since checking a unit
lets a range's depth reach the bound.  When no range covers `o`, the exception leaves the frame
with the frame's handlers dropped. -/
theorem unwind_dispatches_to_innermost_range {isCode : Value → Bool} {u : CodeUnit}
    (hv : u.validate isCode = .ok ()) {s : Active} (hu : s.frame.unit = u)
    (hs : s.frame.stack.size ≤ u.stackSize) {E : Addr} {e : Exc}
    (he : s.machine.heap.get? E = some (.exception e)) :
    (∀ r, u.handlers.find s.frame.instrPc = some r →
      (r.contains s.frame.instrPc = true ∧ ∀ r' ∈ u.handlers.toList,
        r'.contains s.frame.instrPc = true → r.strictlyEncloses r' = false) ∧
      (r.depth < u.stackSize ∨ s.frame.stack.size < u.stackSize →
        ∃ m, unwind (.raise E) s = .ok () ⟨m, { s.frame with
          stack := (s.frame.stack.take r.depth).push (.ref E),
          handled := (r.keptHandled s.frame.handled).push ⟨E, r⟩, pc := r.handler }⟩) ∧
      ((∃ s', unwind (.raise E) s = .error (.internal (.stackOverflow u.name s.frame.instrPc)) s') ↔
        r.depth = u.stackSize ∧ s.frame.stack.size = u.stackSize)) ∧
    (u.handlers.find s.frame.instrPc = none →
      ∃ m, unwind (.raise E) s = .error (.raise E) ⟨m, { s.frame with handled := #[] }⟩) := by
  have hc := CodeUnit.handlersChecked_of_validate hv
  obtain ⟨m, -, hdispatch⟩ := unwind_raise_dispatch he
  subst hu
  refine ⟨fun r hr => ?_, fun hr => ⟨m, hdispatch ▸ dispatch_uncovered E (s := ⟨m, s.frame⟩) hr⟩⟩
  have hdepth : r.depth ≤ s.frame.unit.stackSize :=
    hc.depth_le r (Array.mem_toList_iff.2 (Array.mem_of_find?_eq_some hr))
  have hroom : r.depth < s.frame.unit.stackSize ∨ s.frame.stack.size < s.frame.unit.stackSize →
      ∃ m', unwind (.raise E) s = .ok () ⟨m', { s.frame with
        stack := (s.frame.stack.take r.depth).push (.ref E),
        handled := (r.keptHandled s.frame.handled).push ⟨E, r⟩, pc := r.handler }⟩ := by
    intro hlt
    have hmin : min r.depth s.frame.stack.size < s.frame.unit.stackSize := by omega
    exact ⟨m, hdispatch ▸ dispatch_covered E (s := ⟨m, s.frame⟩) hr hmin⟩
  refine ⟨CodeUnit.find_innermost hc hr, hroom, ⟨fun ⟨s', hs'⟩ => ?_, fun ⟨hd, hfull⟩ => ?_⟩⟩
  · by_contra hne
    obtain ⟨m', hok⟩ := hroom (by omega)
    rw [hok] at hs'
    cases hs'
  · have hmin : s.frame.unit.stackSize ≤ min r.depth s.frame.stack.size := by omega
    rw [hdispatch]
    exact dispatch_overflows E (s := ⟨m, s.frame⟩) hr hmin

/-- A unit whose one handler range restores the whole stack bound, zero: `LoadGlobal x` at
offset 0 raises with an empty stack, and the range `[0, 3)` sends the exception to the
`ReturnValue` at offset 3. -/
def fullDepthUnit : CodeUnit :=
  { (default : CodeUnit) with
    name := "f", bytecode := ⟨#[26, 0, 0, 92]⟩, names := #["x"], stackSize := 0,
    handlers := #[⟨0, 3, 3, 0⟩] }

/-- `fullDepthUnit` raising at offset 0, its exception at address 0. -/
def fullDepthActive : Active :=
  ⟨{ heap := ⟨#[.exception { type := .nameError, message := some "name 'x' is not defined" }]⟩ },
    { (default : Frame) with code := { (default : CodeObj) with unit := fullDepthUnit } }⟩

/-- The unit checks, yet the search for its handler overflows the stack. -/
theorem full_depth_handler_overflows :
    fullDepthUnit.validate (fun _ => false) = .ok () ∧
      ∃ s', unwind (.raise 0) fullDepthActive = .error (.internal (.stackOverflow "f" 0)) s' := by
  have hv : fullDepthUnit.validate (fun _ => false) = .ok () := rfl
  exact ⟨hv, ((unwind_dispatches_to_innermost_range hv rfl (le_refl _) rfl).1
    ⟨0, 3, 3, 0⟩ rfl).2.2.2 ⟨rfl, rfl⟩⟩

end Act

end StackVm
