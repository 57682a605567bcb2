import StackVm.Proofs.Engine.Sites
import StackVm.Proofs.Engine.Operation

/-! Global and attribute reads keep the invariants with their sites.  A global read's site
remembers the value the lookup found with the namespace's version; while the namespace keeps
that version, the lookup finds the same value, so a hit returns what the lookup would.  An
attribute read's site remembers a slot for a layout; when host objects of one layout agree on
their slots, the remembered slot holds the attribute of every object of that layout. -/

namespace StackVm

theorem Ops.getAttr_of_attr {m : Machine} {obj : Value} {o : HostObject} {name : String}
    {v : Value} (hd : m.heap.deref obj = some (.object o)) (hv : o.attr? name = some v) :
    Ops.getAttr obj name m = .ok v m := by
  unfold Ops.getAttr
  rw [EStateM.run_bind_of_ok (rfl : (get : Vm Machine) m = .ok m m)]
  simp only [hd, hv]
  rfl

namespace Act

variable {α : Type}

/-! ### Global reads -/

/-- A global read no site has seen: the lookup, else `NameError`. -/
def lookupOrRaise (name : String) : Act Value := do
  let some value ← lookupGlobal name | raise (Raise.nameUndefined name)
  pure value

/-- The lookup of a global read on a specializing machine, which settles an open site on the
value found. -/
def lookupSettling (name : String) (ga version : Nat) : Act Value := do
  let some value ← lookupGlobal name | raise (Raise.nameUndefined name)
  if let some s ← site then
    if s.isUnresolved then settle s (.global ga version value)
  pure value

theorem loadGlobal_eq (index : Nat) : loadGlobal index = (do
    let name ← nameAt index
    let ga ← reads (·.globals)
    let version := (← globals).version
    if ← specializing then
      match ← site with
      | some s =>
        match s.cache with
        | .global a v value =>
          if a == ga && v == version then do hit; pure value
          else do missAt s; lookupSettling name ga version
        | _ => lookupSettling name ga version
      | _ => lookupSettling name ga version
    else lookupOrRaise name) := by
  unfold loadGlobal
  refine bind_congr fun name => bind_congr fun ga => bind_congr fun g => ?_
  refine bind_congr fun spec => ?_
  cases spec <;> rfl


theorem safe_lookupOrRaise (name : String) : Safe (lookupOrRaise name) := by
  unfold lookupOrRaise
  refine (safe_lookupGlobal name).bind fun r => ?_
  split
  · exact Safe.pure _
  · exact safe_raise _

/-- The name operand read is the name of the current instruction, when the operand is the one at
the instruction's offset. -/
theorem spec_nameAt_operand (index : Nat) :
    Triple (fun s => s.frame.unit.u16At (s.frame.instrPc + 1) = index) (nameAt index)
      (fun name s => name = s.frame.unit.nameAt s.frame.instrPc) :=
  Triple.reads fun s _ hp => by rw [CodeUnit.nameAt, hp]

theorem lookupGlobal_run {s : Active} {g : Globals}
    (hg : s.machine.heap.get? s.frame.globals = some (.globals g)) (name : String) :
    lookupGlobal name s = .ok (g.resolve s.machine.builtins name) s := by
  have hglob : globals s = .ok g s := by
    unfold globals
    rw [EStateM.run_bind_of_ok (rfl : reads (·.globals) s = .ok s.frame.globals s), heap_bind_run,
      hg]
    rfl
  unfold lookupGlobal
  rw [EStateM.run_bind_of_ok hglob]
  cases h : g.get? name
  · simp only [Globals.resolve, h]
    rfl
  · simp only [Globals.resolve, h]
    rfl

/-- The lookup of a global read, settling an open site on the value found, shadows the plain
lookup: the site then remembers what the lookup found at the namespace's version. -/
theorem shadows_lookupSettling {s : Active} {name : String} {ga : Addr} {g : Globals}
    (hga : s.frame.globals = ga) (hg : s.machine.heap.get? ga = some (.globals g))
    (hname : name = s.frame.unit.nameAt s.frame.instrPc) :
    Shadows (lookupSettling name ga g.version) (lookupOrRaise name) s := by
  have hlookup := lookupGlobal_run (hga ▸ hg) name
  cases hr : g.resolve s.machine.builtins name with
  | none =>
    refine Shadows.of_run (safe_lookupOrRaise name) (.refl s) ?_
    unfold lookupSettling lookupOrRaise
    rw [EStateM.run_bind_of_ok hlookup, EStateM.run_bind_of_ok hlookup, hr]
  | some value =>
    have hy : lookupOrRaise name s = .ok value s := by
      unfold lookupOrRaise
      rw [EStateM.run_bind_of_ok hlookup, hr]
      rfl
    have hfound : lookupSettling name ga g.version s =
        (do
          if let some st ← site then
            if st.isUnresolved then settle st (.global ga g.version value)
          pure value) s := by
      unfold lookupSettling
      rw [EStateM.run_bind_of_ok hlookup, hr]
    rw [Shadows, hfound, site_bind_run]
    cases hsite : s.machine.siteAt s.frame.code.profile s.frame.instrPc with
    | none => exact Shadows.of_ok (.refl s) rfl fun _ => hy
    | some st =>
      dsimp only
      split
      · obtain ⟨s₁, hsettle, hu⟩ := settle_unseen (s := s) st (c := .global ga g.version value)
          fun _ _ => ⟨g, hg, Nat.le_refl _, fun _ => hname ▸ hr⟩
        exact Shadows.of_ok hu (EStateM.run_bind_of_ok hsettle) fun _ => hy
      · exact Shadows.of_ok (.refl s) rfl fun _ => hy

/-- A global read keeps the invariants, its site included, and on an erased machine it is the
plain lookup: a site that remembers a value at the namespace's version remembers what the lookup
finds. -/
theorem spec_loadGlobal (index : Nat) :
    Triple (fun s => s.frame.unit.u16At (s.frame.instrPc + 1) = index) (loadGlobal index)
      (fun _ _ => True) := by
  rw [loadGlobal_eq]
  refine (spec_nameAt_operand index).bind fun name => ?_
  refine (Triple.reads (Q := fun ga s => name = s.frame.unit.nameAt s.frame.instrPc ∧
    ga = s.frame.globals) fun s _ hp => ⟨hp, rfl⟩).bind fun ga => ?_
  refine (spec_globals.mono (fun _ h => h) (fun _ _ h => h) fun _ _ _ => trivial).bind fun g => ?_
  refine Triple.of_shadows (safe_lookupOrRaise name) (fun s => rfl) ?_
  rintro s hs ⟨⟨hname, rfl⟩, hg⟩
  dsimp only
  rw [Shadows, specializing_bind_run]
  cases hspec : s.machine.config.specialize
  · exact Shadows.of_run (safe_lookupOrRaise name) (.refl s) rfl
  rw [if_pos rfl, site_bind_run]
  have hsettling := shadows_lookupSettling rfl hg hname
  cases hsite : s.machine.siteAt s.frame.code.profile s.frame.instrPc with
  | none => exact hsettling
  | some st =>
    dsimp only
    cases hc : st.cache with
    | global a v value =>
      dsimp only
      split
      · next hmatch =>
        simp only [Bool.and_eq_true, beq_iff_eq] at hmatch
        obtain ⟨rfl, rfl⟩ := hmatch
        obtain ⟨_, s₁, hhit, hu⟩ := Unnoticed.hit s
        refine Shadows.of_ok hu (EStateM.run_bind_of_ok hhit) fun hco => ?_
        have hsound := hs.machine.caches hco _ _ _ _ hs.frame.code hsite
        rw [hc] at hsound
        obtain ⟨g', hg', -, hval⟩ := hsound
        rw [hg] at hg'
        cases hg'
        have hv : g.resolve s.machine.builtins name = some value := by
          rw [hname]
          exact hval rfl
        unfold lookupOrRaise
        rw [EStateM.run_bind_of_ok (lookupGlobal_run hg name), hv]
        rfl
      · obtain ⟨_, s₁, hmiss, hu⟩ := Unnoticed.missAt st s
        exact Shadows.after hu (shadows_lookupSettling (hu.frame ▸ rfl) (hu.heap ▸ hg)
          (hu.frame ▸ hname)) (EStateM.run_bind_of_ok hmiss)
    | _ => exact hsettling

/-! ### Attribute reads -/

/-- An attribute read on a specializing machine. -/
def attrSettling (obj : Value) (name : String) : Act Value := do
  let general : Act Value := vm (Ops.getAttr obj name)
  let some (.object host) := (← heap).deref obj | general
  let some shape := host.shape | general
  let some s ← site | general
  match s.cache with
  | .attr seen slot =>
    if seen == shape then
      match host.readSlot slot with
      | some v => do hit; pure v
      | none => do missAt s; general
    else do missAt s; general
  | .unresolved =>
    match host.slotOf name with
    | some slot => do
      settle s (.attr shape slot)
      match host.readSlot slot with
      | some v => pure v
      | none => general
    | none => general
  | .generic => general
  | _ => do missAt s; general

theorem loadAttr_eq (obj : Value) (index : Nat) : loadAttr obj index = (do
    let name ← nameAt index
    if ← specializing then attrSettling obj name else vm (Ops.getAttr obj name)) := by
  unfold loadAttr
  refine bind_congr fun name => bind_congr fun spec => ?_
  cases spec <;> rfl

/-- An attribute read on a specializing machine shadows the plain read: a site remembers the
slot every host object of its layout gives the name, which holds when host objects of one
layout agree on their slots. -/
theorem shadows_attrSettling {s : Active} (hs : s.Sound) (obj : Value) {name : String}
    (hname : name = s.frame.unit.nameAt s.frame.instrPc) :
    Shadows (attrSettling obj name) (vm (Ops.getAttr obj name)) s := by
  have hsafe := safe_vm (Ops.safe_getAttr obj name)
  have general : Shadows (vm (Ops.getAttr obj name)) (vm (Ops.getAttr obj name)) s :=
    .of_run hsafe (.refl s) rfl
  have missed : ∀ st : Site,
      Shadows (missAt st >>= fun _ => vm (Ops.getAttr obj name)) (vm (Ops.getAttr obj name)) s :=
    fun st => by
      obtain ⟨_, s₁, hmiss, hu⟩ := Unnoticed.missAt st s
      exact .after hu (.of_run hsafe (.refl s₁) rfl) (EStateM.run_bind_of_ok hmiss)
  have plain : ∀ {host : HostObject} {v : Value}, s.machine.heap.deref obj = some (.object host) →
      host.attr? name = some v → vm (Ops.getAttr obj name) s = .ok v s :=
    fun hd hv => vm_run_ok (Ops.getAttr_of_attr hd hv)
  unfold attrSettling
  refine .of_eq (heap_bind_run _ s) ?_
  split
  · next host hd =>
    split
    · next shape hshape =>
      refine .of_eq (site_bind_run _ s) ?_
      split
      · next st hsite =>
        split
        · next seen slot hc =>
          split
          · next hseen =>
            split
            · next v hv =>
              obtain ⟨_, s₁, hhit, hu⟩ := Unnoticed.hit s
              refine Shadows.of_ok hu (EStateM.run_bind_of_ok hhit) fun hco => plain hd ?_
              have hsound := hs.machine.caches hco _ _ _ _ hs.frame.code hsite
              rw [hc] at hsound
              cases obj with
              | ref a =>
                have hslot := hsound a host hd (by rw [hshape, beq_iff_eq.1 hseen])
                rw [HostObject.attr?, hname]
                exact (congrArg (Option.bind · host.readSlot) hslot).trans hv
              | _ => cases hd
            · exact missed st
          · exact missed st
        · next hc =>
          split
          · next slot hslot =>
            obtain ⟨s₁, hsettle, hu⟩ := settle_unseen (s := s) st (c := .attr shape slot)
              fun _ hco a p hp hps => by
                cases obj with
                | ref b =>
                  rw [← hname, hco a b p host shape hp hd hps hshape name]
                  exact hslot
                | _ => cases hd
            cases hv : host.readSlot slot with
            | some v =>
              refine Shadows.of_ok hu (EStateM.run_bind_of_ok hsettle) fun _ => plain hd ?_
              rw [HostObject.attr?, hslot]
              exact hv
            | none => exact .after hu (.of_run hsafe (.refl s₁) rfl) (EStateM.run_bind_of_ok hsettle)
          · exact general
        · exact general
        · exact missed st
      · exact general
    · exact general
  · exact general

/-- An attribute read keeps the invariants, its site included, and on an erased machine it is
the plain read. -/
theorem spec_loadAttr (obj : Value) (index : Nat) :
    Triple (fun s => s.frame.unit.u16At (s.frame.instrPc + 1) = index) (loadAttr obj index)
      (fun _ _ => True) := by
  rw [loadAttr_eq]
  refine (spec_nameAt_operand index).bind fun name => ?_
  have hsafe := safe_vm (Ops.safe_getAttr obj name)
  refine Triple.of_shadows hsafe (fun s => rfl) fun s hs hname => .of_eq (specializing_bind_run _ s) ?_
  cases s.machine.config.specialize
  · exact .of_run hsafe (.refl s) rfl
  · exact shadows_attrSettling hs obj hname

end Act

end StackVm
