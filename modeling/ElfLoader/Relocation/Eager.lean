import ElfLoader.Relocation.Run

/-! # Eager binding

What a caller of `relocate` with `lazy = Some(false)` may expect of a return:
every entry with a symbol was consumed by a handler or bound, and an entry that
cannot be resolved reached the post handler. The loop over `DT_JMPREL` breaks
this in one place: a jump slot whose symbol is not found is passed over.
-/

namespace ElfLoader

variable {w : Nat} {K P Q : Type}

section Asking

variable {stage : Stage} {ref : RelRef w} {flags flags' : List Bool} {es : List (Event w)}
  {v : Verdict}

/-- A handler took the entry. -/
def Consumed (trace : List (Event w)) (ref : RelRef w) : Prop :=
  ∃ stage idx, .answered stage ref (some (.ok idx)) ∈ trace

theorem Consumed.mono {es es' : List (Event w)} (h : Consumed es ref) (hsub : es ⊆ es') :
    Consumed es' ref := by
  obtain ⟨stage, idx, hmem⟩ := h
  exact ⟨stage, idx, hsub hmem⟩

theorem AskEffect.asked (h : AskEffect stage ref flags es flags' v) : .asked stage ref ∈ es := by
  cases h <;> simp

theorem AskEffect.asked_stage {stage' : Stage} (h : AskEffect stage ref flags es flags' v)
    (hmem : .asked stage' ref ∈ es) : stage' = stage := by
  cases h <;> simp_all

theorem AskEffect.answered_none {stage' : Stage} (h : AskEffect stage ref flags es flags' v)
    (hmem : .answered stage' ref none ∈ es) : stage' = stage ∧ v = .declined := by
  cases h <;> simp_all

theorem AskEffect.declined_mem (h : AskEffect stage ref flags es flags' .declined) :
    .answered stage ref none ∈ es := by
  cases h
  simp

theorem AskEffect.consumed (h : AskEffect stage ref flags es flags' .taken) :
    Consumed es ref := by
  cases h with
  | taken hidx => exact ⟨stage, _, List.mem_cons_of_mem _ List.mem_cons_self⟩

end Asking

section Binding

variable [CustomHasher]
variable (proc : Process w K) (image : DynamicImage proc.arch) (helper : RelocHelper w P Q)

/-- The event writes what the symbol of the entry resolved to at `base + r_offset`. -/
inductive Binds (ref : RelRef w) : Event w → Prop
  | addr {v idx m}
      (hty : ref.rel.rType = proc.arch.relGot ∨ ref.rel.rType = proc.arch.relSymbolic)
      (hfind : image.findAddr proc helper ref = .ok (some (v, idx))) :
      Binds ref (.stored ref m (image.core.base + ref.rel.rOffset)
        (v + ref.rel.addend proc.arch image.core.base m))
  | slot {v idx m} (hty : ref.rel.rType = proc.arch.relJumpSlot)
      (hfind : image.findAddr proc helper ref = .ok (some (v, idx))) :
      Binds ref (.stored ref m (image.core.base + ref.rel.rOffset) v)
  | tls {symdef sym idx m} (hty : ref.rel.rType = proc.arch.relDtpoff)
      (hfind : image.findDef proc helper ref = .ok (some (symdef, idx)))
      (hsym : symdef.sym = some sym) :
      Binds ref (.stored ref m (image.core.base + ref.rel.rOffset)
        (sym.sym.stValue + ref.rel.addend proc.arch image.core.base m - proc.arch.tlsDtvOffset))
  | copy {symdef sym idx own} (hty : ref.rel.rType = proc.arch.relCopy)
      (hfind : image.findDef proc helper ref = .ok (some (symdef, idx)))
      (hsym : symdef.sym = some sym)
      (hown : image.core.symtab.symbolIdx ref.rel.rSymbol = .ok own) :
      Binds ref (.copied ref (image.core.base + ref.rel.rOffset)
        (symdef.lib.base + sym.sym.stValue) own.1.sym.stSize.toNat)
  | irelative {m} (hty : ref.rel.rType = proc.arch.relIrelative) :
      Binds ref (.stored ref m (image.core.base + ref.rel.rOffset)
        (proc.ifunc (image.core.base + ref.rel.addend proc.arch image.core.base m)))

/-- The entries eager binding answers for: the PLT table, and what names a symbol
in the second part of the other table. -/
def Covered (ref : RelRef w) : Prop :=
  ref ∈ image.relocation.pltrel ∨
    ref ∈ image.relocation.dynrel ∧ ref.rel.rType ∈ [proc.arch.relGot, proc.arch.relSymbolic,
      proc.arch.relDtpoff, proc.arch.relCopy]

/-- What eager binding promises of a run. -/
structure EagerBinds (r : EStateM.Result Halt (RelocState w K P Q) (LoadedCore w)) : Prop where
  bound : ∀ {core s'}, r = .ok core s' → ∀ ref, Covered proc image ref →
    Consumed s'.trace ref ∨ ∃ e ∈ s'.trace, Binds proc image helper ref e
  offered : ∀ ref, Covered proc image ref → Unresolved proc image helper ref →
    .answered .pre ref none ∈ (Exec.finalState r).trace →
    .asked .post ref ∈ (Exec.finalState r).trace
  refused : ∀ ref, Covered proc image ref → Unresolved proc image helper ref →
    .answered .post ref none ∈ (Exec.finalState r).trace → ∃ e s', r = .error (.err e) s'

end Binding

section Steps

variable [CustomHasher]
variable {proc : Process w K} {image : DynamicImage proc.arch} {helper : RelocHelper w P Q}
variable {D : Default w} {ref : RelRef w} {flags flags' : List Bool} {es : List (Event w)}

theorem Unresolved.type (h : Unresolved proc image helper ref) :
    ref.rel.rType ∈ proc.arch.symbolTypes := by
  unfold Unresolved at h
  simp only [Arch.symbolTypes, List.mem_cons]
  tauto

theorem unresolved_slot_iff (hty : ref.rel.rType = proc.arch.relJumpSlot) :
    Unresolved proc image helper ref ↔ image.findAddr proc helper ref = .ok none := by
  have hslot := proc.arch.jumpSlot_ne
  unfold Unresolved
  rw [hty]
  tauto

/-- What makes a default logic bind an entry: taking it means writing the
resolved value, and it declines when there is none. -/
structure BindsEntry (proc : Process w K) (image : DynamicImage proc.arch)
    (helper : RelocHelper w P Q) (D : Default w) (ref : RelRef w) : Prop where
  taken : ∀ {flags es flags'}, D ref flags es flags' .taken →
    ∃ e ∈ es, Binds proc image helper ref e
  unresolved : ∀ {flags es flags' v}, D ref flags es flags' v →
    Unresolved proc image helper ref → v = .declined
  silent : ∀ {flags es flags' v}, D ref flags es flags' v →
    ∀ stage answer, .answered stage ref answer ∉ es

variable {x : Ending}

theorem StepEffect.bound (h : StepEffect proc image helper D ref flags es flags' .done)
    (hD : .answered .pre ref none ∈ es → BindsEntry proc image helper D ref) :
    Consumed es ref ∨ ∃ e ∈ es, Binds proc image helper ref e := by
  cases h with
  | pre hpre => exact .inl hpre.consumed
  | @taken es ds _ _ hpre hdef =>
      obtain ⟨e, he, hbinds⟩ := (hD (List.mem_append_left ds hpre.declined_mem)).taken hdef
      exact .inr ⟨e, List.mem_append_right es he, hbinds⟩
  | offered _ _ hpost =>
      cases hpost with
      | taken hpost => exact .inl (hpost.consumed.mono (List.subset_append_right _ _))

theorem StepEffect.offered_of_unresolved
    (h : StepEffect proc image helper D ref flags es flags' x)
    (hD : .answered .pre ref none ∈ es → BindsEntry proc image helper D ref)
    (hres : Unresolved proc image helper ref) (hmem : .answered .pre ref none ∈ es) :
    .asked .post ref ∈ es := by
  have hdefault := hD hmem
  cases h with
  | pre hpre => cases (hpre.answered_none hmem).2
  | preStop hpre => cases (hpre.answered_none hmem).2
  | taken _ hdef => cases hdefault.unresolved hdef hres
  | defaultStop _ hdef => cases hdefault.unresolved hdef hres
  | offered _ _ hpost =>
      refine List.mem_append_right _ ?_
      cases hpost with
      | taken hpost => exact hpost.asked
      | stop hpost => exact hpost.asked
      | unhandled hpost _ => exact List.mem_append_left _ hpost.asked

theorem StepEffect.refused_of_unresolved
    (h : StepEffect proc image helper D ref flags es flags' x)
    (hD : .answered .pre ref none ∈ es → BindsEntry proc image helper D ref)
    (hres : Unresolved proc image helper ref) (hmem : .answered .post ref none ∈ es) :
    ∃ e, x = .stop (.err e) := by
  cases h with
  | pre hpre => cases (hpre.answered_none hmem).1
  | preStop hpre => cases (hpre.answered_none hmem).1
  | @taken es ds _ _ hpre hdef =>
      have hdefault := hD (List.mem_append_left ds hpre.declined_mem)
      cases hdefault.unresolved hdef hres
  | @defaultStop es ds _ _ _ hpre hdef =>
      have hdefault := hD (List.mem_append_left ds hpre.declined_mem)
      cases hdefault.unresolved hdef hres
  | @offered es ds es' _ _ _ _ hpre hdef hpost =>
      have hdefault := hD (List.mem_append_left es' (List.mem_append_left ds hpre.declined_mem))
      -- the answer is the post handler's, so the iteration ended with the error
      have hpost_mem : .answered .post ref none ∈ es' := by
        rcases List.mem_append.mp hmem with hmem | hmem
        · rcases List.mem_append.mp hmem with hmem | hmem
          · cases (hpre.answered_none hmem).1
          · exact absurd hmem (hdefault.silent hdef _ _)
        · exact hmem
      cases hpost with
      | taken hpost => cases (hpost.answered_none hpost_mem).2
      | stop hpost => cases (hpost.answered_none hpost_mem).2
      | unhandled _ herr =>
          obtain ⟨e, rfl⟩ := herr hres
          exact ⟨e, rfl⟩

theorem dynEffect_binds (hty : ref.rel.rType ∈ [proc.arch.relGot, proc.arch.relSymbolic,
      proc.arch.relDtpoff, proc.arch.relCopy]) :
    BindsEntry proc image helper (DynEffect proc image helper) ref := by
  have hother := proc.arch.not_mem_symbolTypes
  have hmem : ref.rel.rType ∈ proc.arch.symbolTypes := by
    simp only [Arch.symbolTypes, List.mem_cons, List.not_mem_nil, or_false] at hty ⊢
    tauto
  refine ⟨?_, ?_, ?_⟩
  · intro flags es flags' h
    cases h with
    | addr hty hfind _ => exact ⟨_, List.mem_cons_self, .addr hty hfind⟩
    | tls hty hfind _ hsym => exact ⟨_, List.mem_cons_self, .tls hty hfind hsym⟩
    | copy hty hfind _ hsym hown => exact ⟨_, List.mem_cons_self, .copy hty hfind hsym hown⟩
    | irelative hty => exact ⟨_, List.mem_cons_self, .irelative hty⟩
    | nothing hty => exact absurd (hty ▸ hmem) hother.1
  · intro flags es flags' v h hres
    cases h with
    | addr hty hfind _ =>
        rw [unresolved_addr_iff image helper hty, hfind] at hres
        cases hres
    | tls hty hfind _ _ =>
        rw [unresolved_def_iff image helper (.inl hty), hfind] at hres
        cases hres
    | copy hty hfind _ _ _ =>
        rw [unresolved_def_iff image helper (.inr hty), hfind] at hres
        cases hres
    | irelative hty => exact absurd (hty ▸ hmem) hother.2.2
    | nothing hty => exact absurd (hty ▸ hmem) hother.1
    | unresolved => rfl
    | unknown => rfl
    | stop _ hne => exact absurd hres hne
  · intro flags es flags' v h stage answer
    cases h <;> simp

theorem pltEffect_binds (hfound : ref.rel.rType = proc.arch.relJumpSlot →
      image.findAddr proc helper ref ≠ .ok none) :
    BindsEntry proc image helper (PltEffect proc image helper false) ref := by
  refine ⟨?_, ?_, ?_⟩
  · intro flags es flags' h
    cases h with
    | lazySlot _ hlazy => cases hlazy
    | slot hty _ hfind _ => exact ⟨_, List.mem_cons_self, .slot hty hfind⟩
    | skipped hty _ hfind => exact absurd hfind (hfound hty)
    | irelative hty => exact ⟨_, List.mem_cons_self, .irelative hty⟩
  · intro flags es flags' v h hres
    cases h with
    | lazySlot _ hlazy => cases hlazy
    | slot hty _ hfind _ =>
        rw [unresolved_slot_iff hty, hfind] at hres
        cases hres
    | skipped hty _ hfind => exact absurd hfind (hfound hty)
    | irelative hty => exact absurd (hty ▸ hres.type) proc.arch.not_mem_symbolTypes.2.2
    | unknown => rfl
    | stop hty _ hne => exact absurd ((unresolved_slot_iff hty).mp hres) hne
  · intro flags es flags' v h stage answer
    cases h <;> simp

/-- A jump slot that is passed over is not offered to the post handler. -/
theorem StepEffect.skipped (h : StepEffect proc image helper (PltEffect proc image helper false)
      ref flags es flags' x) (hty : ref.rel.rType = proc.arch.relJumpSlot)
    (hfind : image.findAddr proc helper ref = .ok none) (hmem : .answered .pre ref none ∈ es) :
    .asked .post ref ∉ es := by
  cases h with
  | pre hpre => cases (hpre.answered_none hmem).2
  | preStop hpre => cases (hpre.answered_none hmem).2
  | taken hpre hdef =>
      cases hdef with
      | lazySlot _ hlazy => cases hlazy
      | slot _ _ hfound _ =>
          rw [hfind] at hfound
          cases hfound
      | skipped =>
          intro hasked
          rw [List.append_nil] at hasked
          cases hpre.asked_stage hasked
      | irelative hirel => exact absurd (hirel.symm.trans hty) proc.arch.irelative_ne_jumpSlot
  | defaultStop _ hdef =>
      cases hdef with
      | stop _ _ hne => exact absurd hfind hne
  | offered _ hdef _ =>
      cases hdef with
      | unknown hunknown => exact absurd (by simp [hty]) hunknown

end Steps

/-! ## Runs -/

theorem ending_eq_err {α σ : Type} {r : EStateM.Result Halt σ α} {e : Error}
    (h : ending r = .stop (.err e)) : ∃ s', r = .error (.err e) s' := by
  cases r with
  | ok a s => cases h
  | error h' s =>
      cases h
      exact ⟨s, rfl⟩

section Runs

variable [CustomHasher]
variable {proc : Process w K}

theorem covered_of_empty {image : DynamicImage proc.arch}
    (hempty : image.relocation.isEmpty = true) (ref : RelRef w) : ¬ Covered proc image ref := by
  unfold DynamicRelocation.isEmpty at hempty
  simp only [Bool.and_eq_true, List.isEmpty_iff] at hempty
  rintro (href | ⟨href, -⟩)
  · simp [hempty.2] at href
  · simp [hempty.1.2] at href

/-- What the effect of a run says about the events of a covered entry. -/
theorem RunEffect.covered_step {image : DynamicImage proc.arch} {helper : RelocHelper w P Q}
    {es : List (Event w)} {flags : List Bool} {x : Ending}
    (h : RunEffect proc image helper false es flags x) {ref : RelRef w}
    (hcovered : Covered proc image ref)
    (hfound : ref ∈ image.relocation.pltrel → ref.rel.rType = proc.arch.relJumpSlot →
      .answered .pre ref none ∈ es → image.findAddr proc helper ref ≠ .ok none) :
    (eventsOf ref es = [] ∧ x ≠ .done) ∨
      ∃ D flags₁ flags₂ y, StepEffect proc image helper D ref flags₁ (eventsOf ref es) flags₂ y ∧
        (.answered .pre ref none ∈ eventsOf ref es → BindsEntry proc image helper D ref) ∧
        (y ≠ .done → x = y) := by
  rcases hcovered with href | ⟨href, hty⟩
  · rcases h.events_of_pltrel href with hnil | ⟨flags₁, flags₂, y, hstep, hy⟩
    · exact .inl hnil
    · refine .inr ⟨_, flags₁, flags₂, y, hstep, fun hmem => pltEffect_binds fun hty => ?_, hy⟩
      exact hfound href hty (mem_eventsOf.mp hmem).1
  · rcases h.events_of_dynrel href with hnil | ⟨flags₁, flags₂, y, hstep, hy⟩
    · exact .inl hnil
    · exact .inr ⟨_, flags₁, flags₂, y, hstep, fun _ => dynEffect_binds hty, hy⟩

theorem eagerBinds_of_found (image : DynamicImage proc.arch) (helper : RelocHelper w P Q)
    {r : EStateM.Result Halt (RelocState w K P Q) (LoadedCore w)}
    (h : RunEffect proc image helper false (Exec.finalState r).trace
      (Exec.finalState r).dependencyFlags (ending r))
    (hfound : ∀ ref ∈ image.relocation.pltrel, ref.rel.rType = proc.arch.relJumpSlot →
      .answered .pre ref none ∈ (Exec.finalState r).trace →
      image.findAddr proc helper ref ≠ .ok none) :
    EagerBinds proc image helper r := by
  refine ⟨?_, ?_, ?_⟩
  · intro core s' hr ref hcovered
    rw [hr] at h hfound
    rcases h.covered_step hcovered (hfound ref) with ⟨-, hne⟩ | ⟨D, f₁, f₂, y, hstep, hD, hy⟩
    · exact absurd rfl hne
    · have hdone : y = .done := by
        by_contra hne
        exact hne (hy hne).symm
      rw [hdone] at hstep
      have hsub : eventsOf ref s'.trace ⊆ s'.trace := fun e he => (mem_eventsOf.mp he).1
      rcases hstep.bound hD with hconsumed | ⟨e, he, hbinds⟩
      · exact .inl (hconsumed.mono hsub)
      · exact .inr ⟨e, hsub he, hbinds⟩
  · intro ref hcovered hres hmem
    have hmem' : .answered .pre ref none ∈ eventsOf ref (Exec.finalState r).trace :=
      mem_eventsOf.mpr ⟨hmem, rfl⟩
    rcases h.covered_step hcovered (hfound ref) with ⟨hnil, -⟩ | ⟨D, f₁, f₂, y, hstep, hD, hy⟩
    · rw [hnil] at hmem'
      cases hmem'
    · exact (mem_eventsOf.mp (hstep.offered_of_unresolved hD hres hmem')).1
  · intro ref hcovered hres hmem
    have hmem' : .answered .post ref none ∈ eventsOf ref (Exec.finalState r).trace :=
      mem_eventsOf.mpr ⟨hmem, rfl⟩
    rcases h.covered_step hcovered (hfound ref) with ⟨hnil, -⟩ | ⟨D, f₁, f₂, y, hstep, hD, hy⟩
    · rw [hnil] at hmem'
      cases hmem'
    · obtain ⟨e, rfl⟩ := hstep.refused_of_unresolved hD hres hmem'
      exact ⟨e, ending_eq_err (hy nofun)⟩

/-- A jump slot that the default logic passes over breaks the promise. -/
theorem EagerBinds.found {image : DynamicImage proc.arch} {helper : RelocHelper w P Q}
    {r : EStateM.Result Halt (RelocState w K P Q) (LoadedCore w)}
    (hbinds : EagerBinds proc image helper r)
    (h : RunEffect proc image helper false (Exec.finalState r).trace
      (Exec.finalState r).dependencyFlags (ending r))
    {ref : RelRef w} (href : ref ∈ image.relocation.pltrel)
    (hty : ref.rel.rType = proc.arch.relJumpSlot)
    (hmem : .answered .pre ref none ∈ (Exec.finalState r).trace) :
    image.findAddr proc helper ref ≠ .ok none := by
  intro hfind
  have hasked := hbinds.offered ref (.inl href) ((unresolved_slot_iff hty).mpr hfind) hmem
  have hmem' : .answered .pre ref none ∈ eventsOf ref (Exec.finalState r).trace :=
    mem_eventsOf.mpr ⟨hmem, rfl⟩
  rcases h.events_of_pltrel href with ⟨hnil, -⟩ | ⟨f₁, f₂, y, hstep, -⟩
  · rw [hnil] at hmem'
    cases hmem'
  · exact hstep.skipped hty hfind hmem' (mem_eventsOf.mpr ⟨hasked, rfl⟩)

/-- Eager relocation keeps its promise exactly when no jump slot that the pre
handler declines has a symbol that cannot be resolved. -/
theorem eager_binds_iff (image : DynamicImage proc.arch) (helper : RelocHelper w P Q)
    (lazyScope : Option (SymbolLookup w)) (os : OsState w K) (pre : P) (post : Q) :
    EagerBinds proc image helper (image.run proc helper (some false) lazyScope os pre post) ↔
      ∀ ref ∈ image.relocation.pltrel, ref.rel.rType = proc.arch.relJumpSlot →
        .answered .pre ref none ∈
          (Exec.finalState (image.run proc helper (some false) lazyScope os pre post)).trace →
        image.findAddr proc helper ref ≠ .ok none := by
  cases hempty : image.relocation.isEmpty with
  | true =>
      have hnone := covered_of_empty hempty
      constructor
      · intro _ ref href
        exact absurd (.inl href) (hnone ref)
      · intro _
        exact ⟨fun _ ref hcovered => absurd hcovered (hnone ref),
          fun ref hcovered => absurd hcovered (hnone ref),
          fun ref hcovered => absurd hcovered (hnone ref)⟩
  | false =>
      have heffect := run_effect image helper (some false) lazyScope os pre post hempty
      constructor
      · intro hbinds ref href hty hmem
        exact hbinds.found heffect href hty hmem
      · exact eagerBinds_of_found image helper heffect

end Runs

section Sample

attribute [local instance] constantHasher

/-- The slot stays unbound, the post handler is not asked, and relocation returns. -/
theorem eager_passes_over_unresolved_slot :
    (∃ core s', (slotImage refersToF).run sampleProcess (plainHelper []) (some false) none
          emptyMemory () () = .ok core s' ∧ s'.trace = [.asked .pre slotRef,
          .answered .pre slotRef none, .initCalled none none]) ∧
      ¬ EagerBinds sampleProcess (slotImage refersToF) (plainHelper [])
        ((slotImage refersToF).run sampleProcess (plainHelper []) (some false) none emptyMemory ()
          ()) := by
  have hrun : ∃ core s', (slotImage refersToF).run sampleProcess (plainHelper []) (some false) none
      emptyMemory () () = .ok core s' ∧ s'.trace = [.asked .pre slotRef,
        .answered .pre slotRef none, .initCalled none none] :=
    ⟨_, _, rfl, rfl⟩
  refine ⟨hrun, fun hbinds => ?_⟩
  obtain ⟨core, s', hrun, htrace⟩ := hrun
  have hasked := hbinds.offered slotRef (.inl List.mem_cons_self)
    (.inl ⟨.inr (.inr rfl), rfl⟩)
  rw [hrun, Exec.finalState_ok, htrace] at hasked
  simpa using hasked (by simp)

end Sample

end ElfLoader
