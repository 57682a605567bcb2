import StackVm.Code.Builder

/-! The order of a built handler table.  The builder sorts the ranges it was given, stably, by
their length, a range that ends before it starts counting as empty; checking the unit then
rejects a range that comes before a range it strictly encloses.  Of two well-formed ranges, one
strictly inside the other is the shorter, so the sort puts it first: with every range well
formed, building never fails for the order of the ranges.

A range that ends before it starts breaks this.  It counts as empty, and an empty range `[a, a)`
taken before it strictly encloses it when the malformed range `[s, e)` has `e ≤ a ≤ s`.  The
checks run range by range, so the empty range is checked first and the two are reported out of
order, where the malformed range, reached on its own, would be reported as malformed.  That is
the only way a build fails for the order of its ranges. -/

namespace StackVm

namespace CodeError

/-- Whether a rejection is one of the handler table's checks. -/
def ofTable : CodeError → Bool
  | malformedRange .. | handlerOutOfBounds .. | handlerDepth .. | unorderedRanges .. => true
  | _ => false

end CodeError

namespace HandlerRange

/-- A well-formed range no longer than a range it strictly encloses is empty, and the range it
encloses ends before it starts. -/
theorem empty_of_strictlyEncloses {r o : HandlerRange} (hr : r.start ≤ r.stop)
    (h : r.strictlyEncloses o = true) (hs : r.span ≤ o.span) :
    r.start = r.stop ∧ o.stop < o.start := by
  simp only [strictlyEncloses, encloses, Bool.and_eq_true, decide_eq_true_eq, Bool.not_eq_true',
    Bool.and_eq_false_iff, beq_eq_false_iff_ne, ne_eq] at h
  simp only [span] at hs
  omega

end HandlerRange

theorem Except.forIn_error {α β ε : Type} {P : ε → Prop}
    {f : α → β → Except ε (ForInStep β)}
    (hf : ∀ x b e, f x b = .error e → P e) :
    ∀ (xs : List α) (b : β) {e : ε}, forIn xs b f = .error e → P e
  | [], _, _, h => by simp [pure, Except.pure] at h
  | x :: xs, b, e, h => by
    rw [List.forIn_cons] at h
    cases hx : f x b with
    | error e' =>
      rw [hx] at h
      cases h
      exact hf x b _ hx
    | ok step =>
      simp only [hx, bind, Except.bind] at h
      cases step with
      | done _ => cases h
      | yield b' => exact Except.forIn_error hf xs b' h

namespace CodeUnit

variable {u : CodeUnit}

/-! ### Only the table checks reject for the table -/

theorem startsFrom_ofTable :
    ∀ {fuel offset : Nat} {acc : Array Nat} {e : CodeError},
      u.startsFrom fuel offset acc = .error e → e.ofTable = false
  | 0, _, _, _, h => by cases h
  | fuel + 1, offset, acc, e, h => by
    unfold startsFrom at h
    split at h
    · dsimp only at h
      split at h
      · cases h
        rfl
      · split at h
        · cases h
          rfl
        · exact startsFrom_ofTable h
    · cases h

theorem checkTarget_ofTable {isStart : Nat → Bool} {offset : Nat} {target : Int} {e : CodeError}
    (h : u.checkTarget isStart offset target = .error e) : e.ofTable = false := by
  unfold checkTarget at h
  split at h
  · split at h
    · cases h
    · cases h
      rfl
  · cases h
    rfl

theorem checkOperands_ofTable {isCode : Value → Bool} {isStart : Nat → Bool} {offset : Nat}
    {op : Opcode} {e : CodeError} (h : u.checkOperands isCode isStart offset op = .error e) :
    e.ofTable = false := by
  unfold checkOperands at h
  dsimp only at h
  repeat' split at h
  all_goals first | exact checkTarget_ofTable h | (cases h; rfl) | cases h

/-- A unit rejected for its handler table is rejected by the table checks: every check before
them rejects for something else. -/
theorem checkHandlers_of_validate {isCode : Value → Bool} {e : CodeError}
    (hv : u.validate isCode = .error e) (he : e.ofTable = true) :
    ∃ isStart, u.checkHandlers isStart 0 u.handlers.toList = .error e := by
  unfold validate at hv
  simp only [bind, Except.bind, throw, throwThe, MonadExceptOf.throw] at hv
  have other : ∀ {e'}, e'.ofTable = false →
      Except.error e' = (Except.error e : Except CodeError Unit) → False := by
    intro e' h' heq
    cases heq
    rw [he] at h'
    cases h'
  split at hv
  · exact (other rfl hv).elim
  split at hv
  · rename_i heq
    rw [← Array.forIn_toList] at heq
    refine (other (Except.forIn_error (P := fun e => e.ofTable = false)
      (fun x b e' h => ?_) _ _ heq) hv).elim
    split at h
    · cases h
      rfl
    · cases h
  split at hv
  · exact (other (startsFrom_ofTable ‹_›) hv).elim
  split at hv
  · rename_i heq
    rw [← Array.forIn_toList] at heq
    refine (other (Except.forIn_error (P := fun e => e.ofTable = false)
      (fun x b e' h => ?_) _ _ heq) hv).elim
    split at h
    · cases h
      exact checkOperands_ofTable ‹_›
    · cases h
  split at hv
  · exact (other rfl hv).elim
  split at hv
  · exact (other rfl hv).elim
  · exact ⟨_, hv⟩

/-- The table checks report two ranges out of order only for a range that passed its own checks
and strictly encloses the later one. -/
theorem checkHandlers_unordered {isStart : Nat → Bool} :
    ∀ {k : Nat} {rs : List HandlerRange} {outer inner : Nat},
      u.checkHandlers isStart k rs = .error (.unorderedRanges outer inner) →
      k ≤ outer ∧ outer < inner ∧
        ∃ r o, rs[outer - k]? = some r ∧ rs[inner - k]? = some o ∧
          r.start ≤ r.stop ∧ r.strictlyEncloses o = true
  | _, [], _, _, h => by cases h
  | k, r :: later, outer, inner, h => by
    simp only [checkHandlers] at h
    split at h
    · cases h
    rename_i hwf
    simp only [Bool.or_eq_true, decide_eq_true_eq, not_or, Nat.not_lt] at hwf
    split at h
    · cases h
    split at h
    · cases h
    split at h
    · rename_i j hj
      cases h
      obtain ⟨hjl, hj', -⟩ := List.findIdx?_eq_some_iff_getElem.mp hj
      refine ⟨Nat.le_refl _, by omega, r, later[j], by simp, ?_, hwf.1, hj'⟩
      rw [show k + 1 + j - k = j + 1 by omega]
      simp [hjl]
    · obtain ⟨hk, hlt, r', o, h₁, h₂, hr', ho⟩ := checkHandlers_unordered h
      refine ⟨by omega, hlt, r', o, ?_, ?_, hr', ho⟩
      · rw [show outer - k = outer - (k + 1) + 1 by omega]
        simpa using h₁
      · rw [show inner - k = inner - (k + 1) + 1 by omega]
        simpa using h₂

end CodeUnit

namespace Builder

theorem toUnit_handlers_sorted (b : Builder) (n : Nat) :
    (b.toUnit n).handlers.toList.Pairwise (fun r s => r.span ≤ s.span) := by
  have hs := @List.pairwise_mergeSort _ (fun r s : HandlerRange => decide (r.span ≤ s.span))
    (fun _ _ _ h₁ h₂ => by simp only [decide_eq_true_eq] at *; omega)
    (fun a b => by simp only [Bool.or_eq_true, decide_eq_true_eq]; omega) b.handlers.toList
  simpa [toUnit] using hs

/-- A build rejected for the handler table, by a builder that recorded no such rejection itself,
is rejected by the check of the unit. -/
theorem validate_of_build {b : Builder} {isCode : Value → Bool} {e : CodeError}
    (hb : ∀ e', b.error = some e' → e'.ofTable = false) (h : b.build isCode = .error e)
    (he : e.ofTable = true) : (b.toUnit b.maxDepth.toNat).validate isCode = .error e := by
  unfold build at h
  simp only [bind, Except.bind, throw, throwThe, MonadExceptOf.throw] at h
  split at h
  · rename_i e' he'
    cases h
    rw [hb _ he'] at he
    cases he
  split at h
  · cases h
    cases he
  split at h
  · cases h
    assumption
  · cases h

/-- A builder that records no rejection of the handler table itself builds a unit whose table
check finds no range before one it strictly encloses, save in one case: the range taken first
is empty, the later one ends before it starts, and the empty range lies between the later one's
end and start.  So when every range given is well formed, the build never fails for the order
of the ranges. -/
theorem built_ranges_ordered (b : Builder) (isCode : Value → Bool)
    (hb : ∀ e, b.error = some e → e.ofTable = false) :
    (∀ outer inner, b.build isCode = .error (.unorderedRanges outer inner) →
      outer < inner ∧ ∃ r o, (b.toUnit b.maxDepth.toNat).handlers[outer]? = some r ∧
        (b.toUnit b.maxDepth.toNat).handlers[inner]? = some o ∧
        r.start = r.stop ∧ o.stop < o.start ∧ r.strictlyEncloses o = true) ∧
    ((∀ r ∈ b.handlers, r.start ≤ r.stop) →
      ∀ outer inner, b.build isCode ≠ .error (.unorderedRanges outer inner)) := by
  have hreport : ∀ outer inner, b.build isCode = .error (.unorderedRanges outer inner) →
      outer < inner ∧ ∃ r o, (b.toUnit b.maxDepth.toNat).handlers[outer]? = some r ∧
        (b.toUnit b.maxDepth.toNat).handlers[inner]? = some o ∧
        r.start = r.stop ∧ o.stop < o.start ∧ r.strictlyEncloses o = true := by
    intro outer inner h
    obtain ⟨isStart, hc⟩ :=
      CodeUnit.checkHandlers_of_validate (Builder.validate_of_build hb h rfl) rfl
    obtain ⟨-, hlt, r, o, hr, ho, hwf, hin⟩ := CodeUnit.checkHandlers_unordered hc
    simp only [Nat.sub_zero, Array.getElem?_toList] at hr ho
    have hspan : r.span ≤ o.span := by
      have hsorted := List.pairwise_iff_getElem.mp (b.toUnit_handlers_sorted b.maxDepth.toNat)
      obtain ⟨hi, rfl⟩ := Array.getElem?_eq_some_iff.mp hr
      obtain ⟨hj, rfl⟩ := Array.getElem?_eq_some_iff.mp ho
      exact hsorted outer inner (by simpa using hi) (by simpa using hj) hlt
    exact ⟨hlt, r, o, hr, ho, (HandlerRange.empty_of_strictlyEncloses hwf hin hspan).1,
      (HandlerRange.empty_of_strictlyEncloses hwf hin hspan).2, hin⟩
  refine ⟨hreport, fun hwf outer inner h => ?_⟩
  obtain ⟨-, r, o, -, ho, -, hmal, -⟩ := hreport outer inner h
  have hmem : o ∈ b.handlers.toList := by
    have := Array.mem_of_getElem? ho
    simpa [Builder.toUnit] using this
  have := hwf o (Array.mem_toList_iff.mp hmem)
  omega

/-- Four instructions, with the empty range `[2, 2)` given before the malformed range `[3, 1)`. -/
def crossedRanges : Builder :=
  (((((Builder.new "f").emit .nop).emit .nop).emit .nop).emit .returnNone
    |>.addHandler ⟨2, 2, 3, 0⟩).addHandler ⟨3, 1, 3, 0⟩

/-- Both ranges count as empty, so the sort keeps them in the order given; the empty range is
checked first and reported as enclosing the malformed one. -/
theorem empty_range_hides_malformed :
    crossedRanges.build (fun _ => false) = .error (.unorderedRanges 0 1) ∧
      ∃ r o, (crossedRanges.toUnit crossedRanges.maxDepth.toNat).handlers[0]? = some r ∧
        (crossedRanges.toUnit crossedRanges.maxDepth.toNat).handlers[1]? = some o ∧
        r.start = r.stop ∧ o.stop < o.start := by
  have hs : crossedRanges.handlers.toList.mergeSort (fun r s => r.span ≤ s.span) =
      [⟨2, 2, 3, 0⟩, ⟨3, 1, 3, 0⟩] :=
    List.mergeSort_of_pairwise (by decide)
  have hbuild : crossedRanges.build (fun _ => false) = .error (.unorderedRanges 0 1) := by
    simp only [Builder.build, Builder.toUnit, hs]
    rfl
  obtain ⟨-, r, o, hr, ho, hr', ho', -⟩ :=
    (built_ranges_ordered crossedRanges _ fun _ h => nomatch h).1 0 1 hbuild
  exact ⟨hbuild, r, o, hr, ho, hr', ho'⟩

end Builder

end StackVm
