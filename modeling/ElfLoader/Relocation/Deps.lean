import ElfLoader.Relocation.Run

/-! # What a relocated image keeps alive

`LoadedCore::deps` holds the libraries whose flag is set or that are listed in
`DT_NEEDED`. A flag is set where a definition of another library is used and
where a handler names an index. The flags are an invariant of the loops: they
only grow, they cover what the events so far used, and a flag that is set has
one of the two reasons.
-/

namespace ElfLoader

variable {w : Nat} {K P Q : Type}

/-- A handler named `i` in one of the events. -/
def Named (es : List (Event w)) (i : Nat) : Prop :=
  ∃ stage ref, .answered stage ref (some (.ok (some i))) ∈ es

theorem Named.mono {es es' : List (Event w)} {i : Nat} (h : Named es i) (hsub : es ⊆ es') :
    Named es' i := by
  obtain ⟨stage, ref, hmem⟩ := h
  exact ⟨stage, ref, hsub hmem⟩

section Flags

variable [CustomHasher]
variable (proc : Process w K) (image : DynamicImage proc.arch) (helper : RelocHelper w P Q)

/-- The event depends on the library with index `i`. -/
inductive Needs : Event w → Nat → Prop
  | handler {stage ref i} : Needs (.answered stage ref (some (.ok (some i)))) i
  | addr {ref m addr value v i}
      (hty : ref.rel.rType = proc.arch.relGot ∨ ref.rel.rType = proc.arch.relSymbolic ∨
        ref.rel.rType = proc.arch.relJumpSlot)
      (hfind : image.findAddr proc helper ref = .ok (some (v, some i))) :
      Needs (.stored ref m addr value) i
  | tls {ref m addr value symdef i} (hty : ref.rel.rType = proc.arch.relDtpoff)
      (hfind : image.findDef proc helper ref = .ok (some (symdef, some i))) :
      Needs (.stored ref m addr value) i
  | copy {ref dest src len symdef i} (hty : ref.rel.rType = proc.arch.relCopy)
      (hfind : image.findDef proc helper ref = .ok (some (symdef, some i))) :
      Needs (.copied ref dest src len) i

/-- The library at `i` is another module than the image. -/
def Other (i : Nat) : Prop :=
  ∃ lib, helper.scope[i]? = some lib ∧ lib.core.id ≠ image.core.id

/-- What the events `es` do to the flags. -/
structure FlagsFollow (flags : List Bool) (es : List (Event w)) (flags' : List Bool) : Prop where
  length : flags'.length = flags.length
  mono : ∀ i : Nat, flags[i]? = some true → flags'[i]? = some true
  covers : ∀ e ∈ es, ∀ i, Needs proc image helper e i → flags'[i]? = some true
  only : ∀ i : Nat, flags'[i]? = some true →
    flags[i]? = some true ∨ Named es i ∨ Other proc image helper i

end Flags

section Loops

variable [CustomHasher]
variable {proc : Process w K} {image : DynamicImage proc.arch} {helper : RelocHelper w P Q}
variable {flags flags' flags'' : List Bool} {es es' : List (Event w)} {ref : RelRef w}

theorem FlagsFollow.trans (h : FlagsFollow proc image helper flags es flags')
    (h' : FlagsFollow proc image helper flags' es' flags'') :
    FlagsFollow proc image helper flags (es ++ es') flags'' := by
  refine ⟨h'.length.trans h.length, fun i hi => h'.mono i (h.mono i hi), ?_, ?_⟩
  · intro e he i hneeds
    rcases List.mem_append.mp he with he | he
    · exact h'.mono i (h.covers e he i hneeds)
    · exact h'.covers e he i hneeds
  · intro i hi
    rcases h'.only i hi with hi | hnamed | hother
    · rcases h.only i hi with hi | hnamed | hother
      · exact .inl hi
      · exact .inr (.inl (hnamed.mono (List.subset_append_left _ _)))
      · exact .inr (.inr hother)
    · exact .inr (.inl (hnamed.mono (List.subset_append_right _ _)))
    · exact .inr (.inr hother)

/-- Events that depend on nothing leave the flags alone. -/
theorem FlagsFollow.of_none (h : ∀ e ∈ es, ∀ i, ¬ Needs proc image helper e i) :
    FlagsFollow proc image helper flags es flags :=
  ⟨rfl, fun _ hi => hi, fun e he i hneeds => absurd hneeds (h e he i), fun _ hi => .inl hi⟩

/-- One event, with the flag of the library it depends on. -/
theorem FlagsFollow.set {idx : Option Nat} (hidx : ∀ i, idx = some i → i < flags.length)
    (hneeds : ∀ e ∈ es, ∀ i, Needs proc image helper e i → idx = some i)
    (hreason : ∀ i, idx = some i → Named es i ∨ Other proc image helper i) :
    FlagsFollow proc image helper flags es (setFlags flags idx) := by
  refine ⟨setFlags_length flags idx, fun i hi => setFlags_mono idx hi, ?_, ?_⟩
  · intro e he i hn
    have heq := hneeds e he i hn
    rw [heq]
    exact setFlags_self (hidx i heq)
  · intro i hi
    rcases setFlags_cases hi with hi | heq
    · exact .inl hi
    · exact .inr (hreason i heq)

theorem FlagsFollow.flag_of_named (h : FlagsFollow proc image helper flags es flags') {i : Nat}
    (hname : Named es i) : flags'[i]? = some true := by
  obtain ⟨stage, ref, hevent⟩ := hname
  exact h.covers _ hevent i .handler

/-- Flags that were clear at the start are set for a reason. -/
theorem FlagsFollow.of_cleared {n : Nat}
    (h : FlagsFollow proc image helper (List.replicate n false) es flags) {i : Nat}
    (hflag : flags[i]? = some true) : Named es i ∨ Other proc image helper i := by
  rcases h.only i hflag with hset | hreason
  · rw [List.getElem?_replicate] at hset
    split at hset
    · cases hset
    · cases hset
  · exact hreason

/-! ## Where an index comes from -/

/-- An index that `find_symdef` reports is that of another module. -/
theorem findSymdefImpl_index {core : ElfCore w} {scope : List (LoadedCore w)} {sym : SymRef w}
    {info : SymbolInfo} {symdef : SymDef w} {i : Nat}
    (h : findSymdefImpl core scope sym info = .ok (some (symdef, some i))) :
    ∃ lib, scope[i]? = some lib ∧ lib.core.id ≠ core.id := by
  cases hlocal : sym.sym.isLocal with
  | true =>
      rw [findSymdefImpl_of_local hlocal] at h
      cases h
  | false =>
      cases hprov : firstProvider scope info with
      | error e =>
          rw [findSymdefImpl_of_error core hlocal hprov] at h
          cases h
      | ok found =>
          cases found with
          | none =>
              rw [findSymdefImpl_of_none core hlocal hprov] at h
              obtain ⟨weak, -, hmap⟩ := Exec.except_map_ok_iff.mp h
              obtain ⟨_, -, hpair⟩ := Option.map_eq_some_iff.mp hmap
              cases hpair
          | some found =>
              obtain ⟨lib, j, ref⟩ := found
              rw [findSymdefImpl_of_provider core hlocal hprov] at h
              obtain ⟨before, after, rfl, rfl, -⟩ := firstProvider_eq_some_iff.mp hprov
              unfold providerDef at h
              split at h
              · cases h
              · rename_i hne
                cases h
                exact ⟨lib, by simp, hne⟩

theorem findDef_other {symdef : SymDef w} {i : Nat}
    (h : image.findDef proc helper ref = .ok (some (symdef, some i))) :
    Other proc image helper i := by
  obtain ⟨own, -, hfind⟩ := Exec.except_bind_ok_iff.mp h
  exact findSymdefImpl_index hfind

theorem findAddr_other {v : BitVec w} {i : Nat}
    (h : image.findAddr proc helper ref = .ok (some (v, some i))) :
    Other proc image helper i := by
  obtain ⟨⟨dynsym, info⟩, -, hfind⟩ := Exec.except_bind_ok_iff.mp h
  dsimp only at hfind
  cases hpre : helper.preFind info.name with
  | some addr =>
      rw [hpre] at hfind
      cases hfind
  | none =>
      rw [hpre] at hfind
      obtain ⟨found, hfound, hret⟩ := Exec.except_bind_ok_iff.mp hfind
      cases found with
      | none =>
          have hmap : (helper.postFind info.name).map (fun addr => (addr, none)) =
              some (v, some i) := Except.ok.inj hret
          obtain ⟨_, -, hpair⟩ := Option.map_eq_some_iff.mp hmap
          cases hpair
      | some found =>
          obtain ⟨symdef, idx⟩ := found
          cases hret
          exact findSymdefImpl_index hfound

/-! ## The loops keep the flags -/

theorem AskEffect.follow {stage : Stage} {v : Verdict} (h : AskEffect stage ref flags es flags' v)
    (hv : ∀ x, v ≠ .stop x) : FlagsFollow proc image helper flags es flags' := by
  cases h with
  | stop => exact absurd rfl (hv _)
  | error => exact absurd rfl (hv _)
  | index => exact absurd rfl (hv _)
  | declined =>
      refine .of_none ?_
      intro e he i hneeds
      simp only [List.mem_cons, List.not_mem_nil, or_false] at he
      rcases he with rfl | rfl
      · cases hneeds
      · cases hneeds
  | @taken idx hidx =>
      refine .set hidx ?_ ?_
      · intro e he i hneeds
        simp only [List.mem_cons, List.not_mem_nil, or_false] at he
        rcases he with rfl | rfl
        · cases hneeds
        · cases hneeds
          rfl
      · rintro i rfl
        exact .inl ⟨stage, ref, by simp⟩

theorem Needs.of_addr {m : ByteMemory.Bytes w} {addr value : BitVec w} {i : Nat}
    (h : Needs proc image helper (.stored ref m addr value) i)
    (hty : ref.rel.rType ≠ proc.arch.relDtpoff) :
    ∃ v, image.findAddr proc helper ref = .ok (some (v, some i)) := by
  cases h with
  | addr _ hfind => exact ⟨_, hfind⟩
  | tls htls _ => exact absurd htls hty

theorem Needs.type {m : ByteMemory.Bytes w} {addr value : BitVec w} {i : Nat}
    (h : Needs proc image helper (.stored ref m addr value) i) :
    ref.rel.rType ∈ proc.arch.symbolTypes := by
  simp only [Arch.symbolTypes, List.mem_cons]
  cases h with
  | addr hty _ => tauto
  | tls hty _ => tauto

/-- A store of an address that a symbol resolved to. -/
theorem FlagsFollow.of_addr {v : BitVec w} {idx : Option Nat} {m : ByteMemory.Bytes w}
    {addr value : BitVec w} (hty : ref.rel.rType ≠ proc.arch.relDtpoff)
    (hfind : image.findAddr proc helper ref = .ok (some (v, idx)))
    (hidx : ∀ i, idx = some i → i < flags.length) :
    FlagsFollow proc image helper flags [.stored ref m addr value] (setFlags flags idx) := by
  refine .set hidx ?_ ?_
  · intro e he i hneeds
    rw [List.mem_singleton.mp he] at hneeds
    obtain ⟨v', hfind'⟩ := hneeds.of_addr hty
    rw [hfind] at hfind'
    cases hfind'
    rfl
  · rintro i rfl
    exact .inr (findAddr_other hfind)

/-- A store that no symbol is behind. -/
theorem FlagsFollow.of_irelative {m : ByteMemory.Bytes w} {addr value : BitVec w}
    (hty : ref.rel.rType = proc.arch.relIrelative) :
    FlagsFollow proc image helper flags [.stored ref m addr value] flags := by
  refine .of_none fun e he i hneeds => ?_
  rw [List.mem_singleton.mp he] at hneeds
  exact proc.arch.not_mem_symbolTypes.2.2 (hty ▸ hneeds.type)

theorem DynEffect.follow {v : Verdict} (h : DynEffect proc image helper ref flags es flags' v)
    (hv : ∀ x, v ≠ .stop x) : FlagsFollow proc image helper flags es flags' := by
  cases h with
  | addr hty hfind hidx => exact .of_addr (proc.arch.addr_type_ne hty).2.2.2.1 hfind hidx
  | tls hty hfind hidx _ =>
      refine .set hidx ?_ ?_
      · intro e he i hneeds
        rw [List.mem_singleton.mp he] at hneeds
        cases hneeds with
        | addr haddr _ =>
            have hslot := proc.arch.jumpSlot_ne.1
            have hne := proc.arch.addr_type_ne (t := ref.rel.rType)
            rw [hty] at haddr hne
            tauto
        | tls _ hfind' =>
            rw [hfind] at hfind'
            cases hfind'
            rfl
      · rintro i rfl
        exact .inr (findDef_other hfind)
  | copy hty hfind hidx _ _ =>
      refine .set hidx ?_ ?_
      · intro e he i hneeds
        rw [List.mem_singleton.mp he] at hneeds
        cases hneeds with
        | copy _ hfind' =>
            rw [hfind] at hfind'
            cases hfind'
            rfl
      · rintro i rfl
        exact .inr (findDef_other hfind)
  | irelative hty => exact .of_irelative hty
  | nothing => exact .of_none nofun
  | unresolved => exact .of_none nofun
  | unknown => exact .of_none nofun
  | stop => exact absurd rfl (hv _)

theorem PltEffect.follow {isLazy : Bool} {v : Verdict}
    (h : PltEffect proc image helper isLazy ref flags es flags' v) (hv : ∀ x, v ≠ .stop x) :
    FlagsFollow proc image helper flags es flags' := by
  cases h with
  | lazySlot =>
      refine .of_none fun e he i hneeds => ?_
      rw [List.mem_singleton.mp he] at hneeds
      cases hneeds
  | slot hty _ hfind hidx => exact .of_addr (hty ▸ proc.arch.jumpSlot_ne.1) hfind hidx
  | skipped => exact .of_none nofun
  | irelative hty => exact .of_irelative hty
  | unknown => exact .of_none nofun
  | stop => exact absurd rfl (hv _)

/-- A default logic that keeps the flags. -/
def Default.Follows (proc : Process w K) (image : DynamicImage proc.arch)
    (helper : RelocHelper w P Q) (D : Default w) : Prop :=
  ∀ {ref flags es flags' v}, D ref flags es flags' v → (∀ x, v ≠ .stop x) →
    FlagsFollow proc image helper flags es flags'

variable {D : Default w}

theorem StepEffect.follow (hD : D.Follows proc image helper)
    (h : StepEffect proc image helper D ref flags es flags' .done) :
    FlagsFollow proc image helper flags es flags' := by
  cases h with
  | pre hpre => exact hpre.follow nofun
  | taken hpre hdef => exact (hpre.follow nofun).trans (hD hdef nofun)
  | offered hpre hdef hpost =>
      cases hpost with
      | taken hpost => exact ((hpre.follow nofun).trans (hD hdef nofun)).trans (hpost.follow nofun)

theorem LoopEffect.follow (hD : D.Follows proc image helper) {refs : List (RelRef w)}
    {x : Ending} (h : LoopEffect proc image helper D refs flags es flags' x) (hx : x = .done) :
    FlagsFollow proc image helper flags es flags' := by
  induction h with
  | nil => exact .of_none nofun
  | step hstep _ ih => exact (hstep.follow hD).trans (ih hx)
  | stop => cases hx

end Loops

/-! ## Whole runs -/

section Uses

variable [CustomHasher]
variable (proc : Process w K) (image : DynamicImage proc.arch) (helper : RelocHelper w P Q)

/-- The event is a write by the loops for which the default logic used the
definition of `lib`: its address, its TLS offset or its bytes. -/
inductive UsesDefinition : Event w → LoadedCore w → Prop
  | addr {ref m addr value sym info lib i found}
      (href : ref ∈ image.relocation.dynrel ∨ ref ∈ image.relocation.pltrel)
      (hty : ref.rel.rType = proc.arch.relGot ∨ ref.rel.rType = proc.arch.relSymbolic ∨
        ref.rel.rType = proc.arch.relJumpSlot)
      (hsym : image.core.symtab.symbolIdx ref.rel.rSymbol = .ok (sym, info))
      (hpre : helper.preFind info.name = none) (hlocal : sym.sym.isLocal = false)
      (hprov : firstProvider helper.scope info = .ok (some (lib, i, found))) :
      UsesDefinition (.stored ref m addr value) lib
  | tls {ref m addr value sym info lib i found}
      (href : ref ∈ image.relocation.dynrel ∨ ref ∈ image.relocation.pltrel)
      (hty : ref.rel.rType = proc.arch.relDtpoff)
      (hsym : image.core.symtab.symbolIdx ref.rel.rSymbol = .ok (sym, info))
      (hlocal : sym.sym.isLocal = false)
      (hprov : firstProvider helper.scope info = .ok (some (lib, i, found))) :
      UsesDefinition (.stored ref m addr value) lib
  | copy {ref dest src len sym info lib i found}
      (href : ref ∈ image.relocation.dynrel ∨ ref ∈ image.relocation.pltrel)
      (hty : ref.rel.rType = proc.arch.relCopy)
      (hsym : image.core.symtab.symbolIdx ref.rel.rSymbol = .ok (sym, info))
      (hlocal : sym.sym.isLocal = false)
      (hprov : firstProvider helper.scope info = .ok (some (lib, i, found))) :
      UsesDefinition (.copied ref dest src len) lib

/-- A lazy scope bound a name to the definition of `lib`: the first of its
libraries that still exists and knows the name. -/
structure LazyUse (scope : LazyScope w) (alive : Nat → Bool) (name : Name) (lib : ElfCore w)
    (v : BitVec w) : Prop where
  first : ∃ before after, scope.libs = before ++ lib :: after ∧
    ∀ l ∈ before, alive l.id = true → (LoadedCore.fromCore l).get proc.ifunc name = .ok none
  alive : alive lib.id = true
  found : (LoadedCore.fromCore lib).get proc.ifunc name = .ok (some v)

/-- A sequence of `dl_fixup` calls, each with the allocations that exist then. -/
def DynamicImage.dlFixups (calls : List ((Nat → Bool) × Nat)) : Reloc w K P Q Unit :=
  calls.forM fun call => do
    let _ ← image.dlFixup proc call.1 call.2

/-- What a relocated image keeps alive. -/
structure KeepsAlive (isLazy : Bool) (lazyScope : Option (SymbolLookup w)) (core : LoadedCore w)
    (s' : RelocState w K P Q) : Prop where
  /-- The other modules whose definitions were used. -/
  used : ∀ e ∈ s'.trace, ∀ lib, UsesDefinition proc image helper e lib →
    lib.core.id ≠ image.core.id → lib ∈ core.deps
  /-- The libraries the handlers named. -/
  named : ∀ i, Named s'.trace i → ∃ lib, helper.scope[i]? = some lib ∧ lib ∈ core.deps
  sublist : core.deps.Sublist helper.scope
  /-- The image itself only when it is needed or was named. -/
  self : ∀ lib ∈ core.deps, lib.core.id = image.core.id →
    image.neededLibs.contains lib.name = true ∨
      ∃ i, helper.scope[i]? = some lib ∧ Named s'.trace i
  /-- The libraries that `dl_fixup` binds to, after any calls of it. -/
  lazily : isLazy = true → lazyScope = none →
    ∀ calls s₁, image.dlFixups proc calls s' = .ok () s₁ →
    ∀ alive idx v s₂, image.dlFixup proc alive idx s₁ = .ok v s₂ →
    ∃ rela sym info scope, image.fixupEntry proc idx = .ok rela ∧
      image.core.symtab.symbolIdx rela.rSymbol = .ok (sym, info) ∧
      s₁.lazyScope = some scope ∧
      ∃ lib ∈ core.deps, LazyUse proc scope alive info.name lib.core v

end Uses

section Runs

variable [CustomHasher]
variable {proc : Process w K} {image : DynamicImage proc.arch} {helper : RelocHelper w P Q}
variable {es : List (Event w)} {flags : List Bool} {ref : RelRef w}

theorem providerDef_index {core : ElfCore w} {lib : LoadedCore w} {i : Nat} {found : SymRef w}
    (hne : lib.core.id ≠ core.id) :
    providerDef core (lib, i, found) = ({ sym := some found, lib := lib.core }, some i) := by
  unfold providerDef
  rw [if_neg hne]

theorem firstProvider_index {scope : List (LoadedCore w)} {info : SymbolInfo} {lib : LoadedCore w}
    {i : Nat} {found : SymRef w} (h : firstProvider scope info = .ok (some (lib, i, found))) :
    scope[i]? = some lib := by
  obtain ⟨before, after, rfl, rfl, -⟩ := firstProvider_eq_some_iff.mp h
  simp

theorem findDef_of_provider {sym : SymRef w} {info : SymbolInfo} {lib : LoadedCore w} {i : Nat}
    {found : SymRef w} (hsym : image.core.symtab.symbolIdx ref.rel.rSymbol = .ok (sym, info))
    (hlocal : sym.sym.isLocal = false)
    (hprov : firstProvider helper.scope info = .ok (some (lib, i, found)))
    (hne : lib.core.id ≠ image.core.id) :
    image.findDef proc helper ref =
      .ok (some ({ sym := some found, lib := lib.core }, some i)) := by
  unfold DynamicImage.findDef
  rw [findSymdef_eq hsym, findSymdefImpl_of_provider image.core hlocal hprov,
    providerDef_index hne]

theorem findAddr_of_provider {sym : SymRef w} {info : SymbolInfo} {lib : LoadedCore w} {i : Nat}
    {found : SymRef w} (hsym : image.core.symtab.symbolIdx ref.rel.rSymbol = .ok (sym, info))
    (hpre : helper.preFind info.name = none) (hlocal : sym.sym.isLocal = false)
    (hprov : firstProvider helper.scope info = .ok (some (lib, i, found)))
    (hne : lib.core.id ≠ image.core.id) :
    image.findAddr proc helper ref =
      .ok (some (SymDef.convert proc.ifunc { sym := some found, lib := lib.core }, some i)) := by
  unfold DynamicImage.findAddr
  rw [findSymbolAddr_of_no_pre hsym hpre, findSymdefImpl_of_provider image.core hlocal hprov,
    providerDef_index hne]
  rfl

/-- A definition of another module that was used is one the flags must cover. -/
theorem UsesDefinition.needs {e : Event w} {lib : LoadedCore w}
    (h : UsesDefinition proc image helper e lib) (hne : lib.core.id ≠ image.core.id) :
    ∃ i ref, helper.scope[i]? = some lib ∧ Needs proc image helper e i ∧ e.ref? = some ref ∧
      (ref ∈ image.relocation.dynrel ∨ ref ∈ image.relocation.pltrel) := by
  cases h with
  | addr href hty hsym hpre hlocal hprov =>
      exact ⟨_, _, firstProvider_index hprov,
        .addr hty (findAddr_of_provider hsym hpre hlocal hprov hne), rfl, href⟩
  | tls href hty hsym hlocal hprov =>
      exact ⟨_, _, firstProvider_index hprov,
        .tls hty (findDef_of_provider hsym hlocal hprov hne), rfl, href⟩
  | copy href hty hsym hlocal hprov =>
      exact ⟨_, _, firstProvider_index hprov,
        .copy hty (findDef_of_provider hsym hlocal hprov hne), rfl, href⟩

/-- No handler is asked in the relative pass. -/
theorem RelativeEffect.not_answered {refs : List (RelRef w)}
    (h : RelativeEffect proc image refs es) (stage : Stage) (answer : Answer) :
    .answered stage ref answer ∉ es := by
  induction h with
  | nil => nofun
  | cons _ ih => simp [ih]

theorem RelativePass.not_answered {relative : RelativeRel w} {x : Ending}
    (h : RelativePass proc image relative es x) (stage : Stage) (answer : Answer) :
    .answered stage ref answer ∉ es := by
  intro hmem
  cases h with
  | rel _ heffect => exact heffect.not_answered stage answer hmem
  | refused => cases hmem
  | relr hes => cases hes _ hmem

/-- The loops of a run that returned: their events hold what was bound and what
the handlers answered, and they kept the flags. -/
theorem RunEffect.loops {isLazy : Bool}
    (h : RunEffect proc image helper isLazy es flags .done) :
    ∃ ls, ls ⊆ es ∧
      FlagsFollow proc image helper (List.replicate helper.scope.length false) ls flags ∧
      (∀ e ∈ es, ∀ ref, e.ref? = some ref →
        ref ∈ image.relocation.dynrel ∨ ref ∈ image.relocation.pltrel → e ∈ ls) ∧
      ∀ i, Named es i → Named ls i := by
  cases h with
  | @pltrel rs ds ps ts flags₁ _ y _ hrel hdyn hplt hend htail =>
      obtain rfl : y = .done := by
        rcases hend with rfl | rfl
        · rfl
        · rfl
      refine ⟨ds ++ ps, ?_, (hdyn.follow DynEffect.follow rfl).trans
        (hplt.follow PltEffect.follow rfl), ?_, ?_⟩
      · intro e he
        simp only [List.mem_append] at he ⊢
        tauto
      · intro e he ref href hmem
        simp only [List.mem_append] at he ⊢
        rcases he with ((he | he) | he) | he
        · -- an entry of the loops is not in the relative part
          have hnil : eventsOf ref rs = [] := by
            refine hrel.eventsOf_eq_nil fun rels hrels hmem' => ?_
            rcases hmem with hmem | hmem
            · exact image.distinct.relative_dyn rels hrels ref hmem' hmem
            · have htable := image.distinct.relative_table rels hrels ref hmem'
              exact image.distinct.not_mem_plt htable hmem
          have hevent := mem_eventsOf.mpr ⟨he, href⟩
          rw [hnil] at hevent
          cases hevent
        · exact .inl he
        · exact .inr he
        · rw [htail e he] at href
          cases href
      · rintro i ⟨stage, ref, hmem⟩
        refine ⟨stage, ref, ?_⟩
        simp only [List.mem_append] at hmem ⊢
        rcases hmem with ((hmem | hmem) | hmem) | hmem
        · exact absurd hmem (hrel.not_answered stage _)
        · exact .inl hmem
        · exact .inr hmem
        · cases htail _ hmem

/-! ## The dependencies -/

theorem mem_collectDeps {scope : List (LoadedCore w)} {i : Nat} {lib : LoadedCore w}
    (hlib : scope[i]? = some lib) (hlen : flags.length = scope.length)
    (h : flags[i]? = some true ∨ image.neededLibs.contains lib.name = true) :
    lib ∈ image.collectDeps proc scope flags := by
  have hi : i < scope.length := (List.getElem?_eq_some_iff.mp hlib).1
  have hzip : (lib, flags[i]) ∈ scope.zip flags := by
    refine List.mem_iff_getElem?.mpr ⟨i, ?_⟩
    rw [List.getElem?_zip_eq_some]
    exact ⟨hlib, List.getElem?_eq_getElem _⟩
  refine List.mem_filterMap.mpr ⟨(lib, flags[i]), hzip, ?_⟩
  rcases h with h | h
  · have hflag : flags[i] = true := (List.getElem?_eq_some_iff.mp h).2
    simp [hflag]
  · simp only [h, Bool.or_true, if_true]

theorem collectDeps_mem {scope : List (LoadedCore w)} {lib : LoadedCore w}
    (h : lib ∈ image.collectDeps proc scope flags) :
    ∃ i : Nat, scope[i]? = some lib ∧
      (flags[i]? = some true ∨ image.neededLibs.contains lib.name = true) := by
  obtain ⟨⟨lib', flag⟩, hzip, hsome⟩ := List.mem_filterMap.mp h
  obtain ⟨i, hi⟩ := List.mem_iff_getElem?.mp hzip
  rw [List.getElem?_zip_eq_some] at hi
  split at hsome
  · rename_i hkeep
    cases hsome
    refine ⟨i, hi.1, ?_⟩
    rcases Bool.or_eq_true_iff.mp hkeep with hflag | hneeded
    · exact .inl (by rw [hi.2]; exact congrArg some hflag)
    · exact .inr hneeded
  · cases hsome

theorem collectDeps_sublist (scope : List (LoadedCore w)) (flags : List Bool) :
    (image.collectDeps proc scope flags).Sublist scope := by
  unfold DynamicImage.collectDeps
  induction scope generalizing flags with
  | nil => exact List.Sublist.slnil
  | cons lib scope ih =>
      cases flags with
      | nil => exact List.nil_sublist _
      | cons flag flags =>
          rw [List.zip_cons_cons, List.filterMap_cons]
          split
          · exact (ih flags).cons lib
          · rename_i lib' hkeep
            split at hkeep
            · cases hkeep
              exact (ih flags).cons_cons lib
            · cases hkeep

/-- A needed library of the scope is a dependency. -/
theorem needed_mem_deps {lazy : Option Bool} {lazyScope : Option (SymbolLookup w)}
    {os : OsState w K} {pre : P} {post : Q} {core : LoadedCore w} {s' : RelocState w K P Q}
    (hempty : image.relocation.isEmpty = false)
    (hrun : image.run proc helper lazy lazyScope os pre post = .ok core s') {lib : LoadedCore w}
    (hlib : lib ∈ helper.scope) (hneeded : image.neededLibs.contains lib.name = true) :
    lib ∈ core.deps := by
  have heffect := run_effect image helper lazy lazyScope os pre post hempty
  rw [hrun] at heffect
  obtain ⟨ls, -, hfollow, -⟩ := heffect.loops
  have hlen : s'.dependencyFlags.length = helper.scope.length := by
    rw [← List.length_replicate (n := helper.scope.length) (a := false), ← hfollow.length]
    rfl
  obtain ⟨i, hi⟩ := List.mem_iff_getElem?.mp hlib
  rw [run_deps image helper lazy lazyScope os pre post hempty hrun]
  exact mem_collectDeps hi hlen (.inr hneeded)

/-! ## Lazy binding -/

theorem afterPltrel_lazyScope {scope : LazyScope w} {s s' : RelocState w K P Q}
    (h : image.afterPltrel proc true (some scope) s = .ok () s') : s'.lazyScope = some scope := by
  unfold DynamicImage.afterPltrel at h
  cases hplt : image.relocation.pltrel.isEmpty with
  | true =>
      rw [hplt] at h
      cases h
      rfl
  | false =>
      rw [hplt] at h
      cases hgot : image.gotPlt with
      | none =>
          rw [hgot] at h
          cases h
      | some got =>
          rw [hgot] at h
          cases h
          rfl

theorem passes_lazyScope {scope : LazyScope w} {s s' : RelocState w K P Q}
    (h : image.passes proc helper true (some scope) s = .ok () s') :
    s'.lazyScope = some scope := by
  unfold DynamicImage.passes at h
  obtain ⟨_, s₁, -, hdynrel⟩ := Exec.bind_ok_iff.mp h
  obtain ⟨_, s₂, -, hpltrel⟩ := Exec.bind_ok_iff.mp hdynrel
  obtain ⟨_, s₃, hplt, hfinish⟩ := Exec.bind_ok_iff.mp hpltrel
  obtain ⟨_, s₄, -, hafter⟩ := Exec.bind_ok_iff.mp hplt
  have hscope : s₃.lazyScope = some scope := afterPltrel_lazyScope hafter
  cases hfinish
  exact hscope

/-- A lazy run without a custom scope leaves the needed libraries as its scope. -/
theorem run_lazyScope {lazy : Option Bool} {os : OsState w K} {pre : P} {post : Q}
    {core : LoadedCore w} {s' : RelocState w K P Q} (hlazy : lazy.getD image.lazy = true)
    (hempty : image.relocation.isEmpty = false) {custom : Option (SymbolLookup w)}
    (hrun : image.run proc helper lazy custom os pre post = .ok core s') :
    s'.lazyScope = some
      { libs := if custom.isNone then
            (helper.scope.filter fun lib => image.neededLibs.contains lib.name).map
              LoadedCore.core
          else []
        customScope := custom } := by
  unfold DynamicImage.run at hrun
  rw [relocateImpl_eq image helper lazy custom _ hempty, hlazy] at hrun
  split at hrun
  · rename_i hpasses
    cases hrun
    exact passes_lazyScope hpasses
  · cases hrun

/-- What a `dl_fixup` call that returns did. -/
theorem dlFixup_ok {alive : Nat → Bool} {idx : Nat} {s s' : RelocState w K P Q} {v : BitVec w}
    (h : image.dlFixup proc alive idx s = .ok v s') :
    ∃ rela sym info scope, image.fixupEntry proc idx = .ok rela ∧
      rela.rType = proc.arch.relJumpSlot ∧ rela.rSymbol ≠ 0 ∧
      image.core.symtab.symbolIdx rela.rSymbol = .ok (sym, info) ∧
      s.lazyScope = some scope ∧ scope.lookup proc.ifunc alive info.name = .ok (some v) ∧
      (Reloc.store ⟨.plt, idx, rela⟩ (image.core.base + rela.rOffset) v : Reloc w K P Q Unit) s =
        .ok () s' := by
  unfold DynamicImage.dlFixup at h
  obtain ⟨rela, s₁, hlift₁, hbody⟩ := Exec.bind_ok_iff.mp h
  obtain ⟨hentry, rfl⟩ := Exec.lift_ok_iff.mp hlift₁
  split at hbody
  · rename_i hslot
    obtain ⟨⟨sym, info⟩, s₂, hlift₂, hscoped⟩ := Exec.bind_ok_iff.mp hbody
    obtain ⟨hsym, rfl⟩ := Exec.lift_ok_iff.mp hlift₂
    dsimp only at hscoped
    rw [Exec.bind_of_ok (Exec.get_apply s₂)] at hscoped
    cases hscope : s₂.lazyScope with
    | none =>
        rw [hscope] at hscoped
        cases hscoped
    | some scope =>
        rw [hscope] at hscoped
        obtain ⟨found, s₃, hlift₃, hbound⟩ := Exec.bind_ok_iff.mp hscoped
        obtain ⟨hfound, rfl⟩ := Exec.lift_ok_iff.mp hlift₃
        cases found with
        | none => cases hbound
        | some symbol =>
            obtain ⟨_, s₄, hstore, hret⟩ := Exec.bind_ok_iff.mp hbound
            cases hret
            exact ⟨rela, sym, info, scope, hentry, hslot.1, hslot.2, hsym, rfl, hfound, hstore⟩
  · cases hbody

theorem dlFixup_lazyScope {alive : Nat → Bool} {idx : Nat} {s s' : RelocState w K P Q}
    {v : BitVec w} (h : image.dlFixup proc alive idx s = .ok v s') :
    s'.lazyScope = s.lazyScope := by
  obtain ⟨rela, sym, info, scope, -, -, -, -, -, -, hstore⟩ := dlFixup_ok h
  cases hstore
  rfl

theorem dlFixups_lazyScope {calls : List ((Nat → Bool) × Nat)} {s s' : RelocState w K P Q}
    (h : image.dlFixups proc calls s = .ok () s') : s'.lazyScope = s.lazyScope := by
  unfold DynamicImage.dlFixups at h
  induction calls generalizing s with
  | nil =>
      cases h
      rfl
  | cons call calls ih =>
      obtain ⟨s₁, hcall, hrest⟩ := Exec.forM_cons_ok_iff.mp h
      obtain ⟨v, s₂, hfixup, hret⟩ := Exec.bind_ok_iff.mp hcall
      cases hret
      exact (ih hrest).trans (dlFixup_lazyScope hfixup)

/-- Without a custom scope, what a lookup finds is the definition of a library. -/
theorem LazyScope.lookup_use {scope : LazyScope w} {alive : Nat → Bool} {name : Name}
    {v : BitVec w} (hcustom : scope.customScope = none)
    (h : scope.lookup proc.ifunc alive name = .ok (some v)) :
    ∃ lib ∈ scope.libs, LazyUse proc scope alive name lib v := by
  unfold LazyScope.lookup at h
  rw [hcustom] at h
  obtain ⟨before, lib, after, hsplit, hbefore, hlib⟩ := Search.findFirst_eq_some_iff.mp h
  refine ⟨lib, by rw [hsplit]; simp, ⟨before, after, hsplit, ?_⟩, ?_, ?_⟩
  · intro l hl halive
    have hnone := hbefore l hl
    rwa [if_pos halive] at hnone
  · by_contra halive
    rw [if_neg halive] at hlib
    cases hlib
  · split at hlib
    · exact hlib
    · cases hlib

section Finished

variable {lazy : Option Bool} {lazyScope : Option (SymbolLookup w)} {os : OsState w K} {pre : P}
  {post : Q} {core : LoadedCore w} {s' : RelocState w K P Q}

theorem KeepsAlive.of_empty {isLazy : Bool} (hempty : image.relocation.isEmpty = true)
    (hrun : image.run proc helper lazy lazyScope os pre post = .ok core s') :
    KeepsAlive proc image helper isLazy lazyScope core s' := by
  rw [run_of_empty image helper lazy lazyScope os pre post hempty] at hrun
  cases hrun
  refine ⟨nofun, ?_, List.nil_sublist _, nofun, ?_⟩
  · rintro i ⟨stage, ref, hmem⟩
    cases hmem
  · -- there is no lazy scope to bind through
    intro _ _ calls s₁ hcalls alive idx v s₂ hfixup
    obtain ⟨rela, sym, info, scope, -, -, -, -, hscope, -⟩ := dlFixup_ok hfixup
    rw [dlFixups_lazyScope hcalls] at hscope
    cases hscope

/-- A call of `dl_fixup` binds to a library of the lazy scope, which is needed. -/
theorem dlFixup_uses_dep (hempty : image.relocation.isEmpty = false)
    (hlazy : lazy.getD image.lazy = true)
    (hrun : image.run proc helper lazy none os pre post = .ok core s')
    {calls : List ((Nat → Bool) × Nat)} {s₁ s₂ : RelocState w K P Q}
    (hcalls : image.dlFixups proc calls s' = .ok () s₁) {alive : Nat → Bool} {idx : Nat}
    {v : BitVec w} (hfixup : image.dlFixup proc alive idx s₁ = .ok v s₂) :
    ∃ rela sym info scope, image.fixupEntry proc idx = .ok rela ∧
      image.core.symtab.symbolIdx rela.rSymbol = .ok (sym, info) ∧
      s₁.lazyScope = some scope ∧
      ∃ lib ∈ core.deps, LazyUse proc scope alive info.name lib.core v := by
  obtain ⟨rela, sym, info, scope, hentry, -, -, hsym, hscope, hlookup, -⟩ := dlFixup_ok hfixup
  have hscope' := hscope
  rw [dlFixups_lazyScope hcalls, run_lazyScope hlazy hempty hrun] at hscope'
  cases hscope'
  obtain ⟨lib, hlib, huse⟩ := LazyScope.lookup_use rfl hlookup
  obtain ⟨loaded, hloaded, rfl⟩ := List.mem_map.mp hlib
  obtain ⟨hin, hneeded⟩ := List.mem_filter.mp hloaded
  exact ⟨rela, sym, info, _, hentry, hsym, hscope, loaded,
    needed_mem_deps hempty hrun hin hneeded, huse⟩

end Finished

/-- A relocation that returns keeps alive everything the image is bound to. -/
theorem deps_keep_alive (image : DynamicImage proc.arch) (helper : RelocHelper w P Q)
    (lazy : Option Bool) (lazyScope : Option (SymbolLookup w)) (os : OsState w K) (pre : P)
    (post : Q) {core : LoadedCore w} {s' : RelocState w K P Q}
    (hrun : image.run proc helper lazy lazyScope os pre post = .ok core s') :
    KeepsAlive proc image helper (lazy.getD image.lazy) lazyScope core s' := by
  cases hempty : image.relocation.isEmpty with
  | true => exact .of_empty hempty hrun
  | false =>
      have heffect := run_effect image helper lazy lazyScope os pre post hempty
      have hdeps := run_deps image helper lazy lazyScope os pre post hempty hrun
      rw [hrun] at heffect
      obtain ⟨ls, hsub, hfollow, hmem, hnamed⟩ := heffect.loops
      rw [Exec.finalState_ok] at hsub hfollow hmem hnamed
      have hlen : s'.dependencyFlags.length = helper.scope.length := by
        rw [hfollow.length, List.length_replicate]
      refine ⟨?_, ?_, hdeps ▸ collectDeps_sublist _ _, ?_, ?_⟩
      · intro e he lib huses hne
        obtain ⟨i, ref, hlib, hneeds, href, hentry⟩ := huses.needs hne
        have hflag := hfollow.covers e (hmem e he ref href hentry) i hneeds
        exact hdeps ▸ mem_collectDeps hlib hlen (.inl hflag)
      · intro i hname
        have hflag := hfollow.flag_of_named (hnamed i hname)
        have hi : i < helper.scope.length := hlen ▸ (List.getElem?_eq_some_iff.mp hflag).1
        have hlib : helper.scope[i]? = some helper.scope[i] := List.getElem?_eq_getElem hi
        exact ⟨_, hlib, hdeps ▸ mem_collectDeps hlib hlen (.inl hflag)⟩
      · intro lib hlib hself
        obtain ⟨i, hi, hflag | hneeded⟩ := collectDeps_mem (hdeps ▸ hlib)
        · rcases hfollow.of_cleared hflag with hname | ⟨lib', hlib', hne⟩
          · exact .inr ⟨i, hi, hname.mono hsub⟩
          · rw [hi] at hlib'
            cases hlib'
            exact absurd hself hne
        · exact .inl hneeded
      · rintro hlazy rfl calls s₁ hcalls alive idx v s₂ hfixup
        exact dlFixup_uses_dep hempty hlazy hrun hcalls hfixup

end Runs

section Sample

attribute [local instance] constantHasher

theorem deps_keep_alive_bound_library :
    ∃ core s', (slotImage refersToF).run sampleProcess (plainHelper [definesF none]) (some false)
      none emptyMemory () () = .ok core s' ∧ definesF none ∈ core.deps := by
  obtain ⟨core, s', hrun, htrace⟩ : ∃ core s',
      (slotImage refersToF).run sampleProcess (plainHelper [definesF none]) (some false) none
          emptyMemory () () = .ok core s' ∧
        s'.trace = [.asked .pre slotRef, .answered .pre slotRef none,
          .stored slotRef emptyMemory.mem 0x10900 0x20100, .initCalled none none] :=
    ⟨_, _, rfl, rfl⟩
  have hmem : .stored slotRef emptyMemory.mem 0x10900 0x20100 ∈ s'.trace := by
    rw [htrace]
    simp
  refine ⟨core, s', hrun, ?_⟩
  refine (deps_keep_alive (slotImage refersToF) (plainHelper [definesF none]) (some false) none
    emptyMemory () () hrun).used _ hmem (definesF none) ?_ (by decide)
  have hsym : (slotImage refersToF).core.symtab.symbolIdx slotRef.rel.rSymbol =
      .ok (⟨1, ⟨1, 0, 8, 0x12, 0, 0⟩⟩, { name := [102], version := none }) := by
    rw [show slotRef.rel.rSymbol = 1 by decide]
    rfl
  exact .addr (.inr List.mem_cons_self) (.inr (.inr rfl)) hsym rfl rfl
    (firstProvider_eq_some_iff.mpr ⟨[], [], rfl, rfl, rfl, nofun⟩)

end Sample

end ElfLoader
