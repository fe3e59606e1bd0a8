import ElfLoader.Relocation.Resolution
import ElfLoader.Relocation.Static

/-! # What a relocated object keeps alive

The relocator drops the index of the library that a symbol was found in, and the
result has no dependencies. The invariant below says that every entry the loop
has passed left the address of its symbol somewhere: in a section, or in a GOT
slot that a later entry for the same symbol finds occupied.
-/

namespace ElfLoader

variable {K : Type}

/-- The entry an event was recorded for. -/
def StaticEvent.rel? : StaticEvent → Option (ElfRelType 64)
  | .patched rel _ _ => some rel
  | .filled rel _ _ => some rel
  | .linked rel _ _ => some rel
  | .initCalled _ => none

/-- The address of the entry's symbol was written to a section or to the GOT. -/
def WroteSymbol (rel : ElfRelType 64) (es : List StaticEvent) : Prop :=
  ∃ addr sym, .patched rel addr sym ∈ es ∨ .filled rel addr sym ∈ es

/-- The symbol has a slot in the GOT or an entry in the PLT. -/
def PltGotSection.Knows (pltgot : PltGotSection) (rSym : Nat) : Prop :=
  rSym ∈ pltgot.gotMap.map Prod.fst ∨ rSym ∈ pltgot.pltMap.map Prod.fst

/-- What a step on behalf of `rel` may do to the state. -/
def StaticStep (rel : ElfRelType 64) (es : List StaticEvent) (s s' : StaticState K) : Prop :=
  s'.trace = s.trace ++ es ∧ (∀ e ∈ es, e.rel? = some rel) ∧
    ∀ r, s'.pltgot.Knows r → s.pltgot.Knows r ∨ (r = rel.rSymbol ∧ WroteSymbol rel es)

theorem WroteSymbol.mono {rel : ElfRelType 64} {es es' : List StaticEvent}
    (h : WroteSymbol rel es) (hsub : es ⊆ es') : WroteSymbol rel es' := by
  obtain ⟨addr, sym, hmem | hmem⟩ := h
  · exact ⟨addr, sym, .inl (hsub hmem)⟩
  · exact ⟨addr, sym, .inr (hsub hmem)⟩

theorem StaticStep.trans {rel : ElfRelType 64} {es es' : List StaticEvent}
    {s s₁ s₂ : StaticState K} (h : StaticStep rel es s s₁) (h' : StaticStep rel es' s₁ s₂) :
    StaticStep rel (es ++ es') s s₂ := by
  refine ⟨by rw [h'.1, h.1, List.append_assoc], ?_, ?_⟩
  · intro e he
    rcases List.mem_append.mp he with he | he
    · exact h.2.1 e he
    · exact h'.2.1 e he
  · intro r hr
    rcases h'.2.2 r hr with hr | ⟨hr, hwrote⟩
    · rcases h.2.2 r hr with hr | ⟨hr, hwrote⟩
      · exact .inl hr
      · exact .inr ⟨hr, hwrote.mono (List.subset_append_left _ _)⟩
    · exact .inr ⟨hr, hwrote.mono (List.subset_append_right _ _)⟩

/-- A write that leaves the tables alone. -/
theorem StaticStep.of_event {rel : ElfRelType 64} {e : StaticEvent} {s s' : StaticState K}
    (htrace : s'.trace = s.trace ++ [e]) (he : e.rel? = some rel) (hpltgot : s'.pltgot = s.pltgot) :
    StaticStep rel [e] s s' := by
  refine ⟨htrace, ?_, fun r hr => .inl (hpltgot ▸ hr)⟩
  intro e' he'
  rw [List.mem_singleton.mp he']
  exact he

theorem mem_of_lookup {xs : List (Nat × Nat)} {k v : Nat} (h : xs.lookup k = some v) :
    k ∈ xs.map Prod.fst := by
  induction xs with
  | nil => cases h
  | cons x xs ih =>
      rw [List.lookup_cons] at h
      split at h
      · rename_i heq
        rw [List.map_cons, eq_of_beq heq]
        exact List.mem_cons_self
      · exact List.mem_cons_of_mem _ (ih h)

namespace X86_64Relocator

section Steps

variable {rel : ElfRelType 64} {s s' : StaticState K} {sym v : BitVec 64}

theorem unwrap_ok {α : Type} {o : Option α} {a : α} (h : Static.unwrap o s = .ok a s') :
    s' = s := by
  cases o with
  | none => cases h
  | some b =>
      cases h
      rfl

theorem gotSlot_step (h : gotSlot rel sym s = .ok v s') :
    ∃ es, StaticStep rel es s s' ∧ (WroteSymbol rel es ∨ s.pltgot.Knows rel.rSymbol) := by
  unfold gotSlot at h
  obtain ⟨entry, s₁, hentry, hrest⟩ := Exec.bind_ok_iff.mp h
  unfold Static.addGotEntry PltGotSection.addGotEntry at hentry
  cases hlookup : s.pltgot.gotMap.lookup rel.rSymbol with
  | some idx =>
      rw [hlookup] at hentry
      cases hentry
      cases hrest
      refine ⟨[], ⟨(List.append_nil _).symm, nofun, fun r hr => .inl hr⟩, .inr (.inl ?_)⟩
      exact mem_of_lookup hlookup
  | none =>
      rw [hlookup] at hentry
      cases hentry
      cases hrest
      refine ⟨_, ⟨rfl, ?_, ?_⟩, .inl ⟨_, _, .inr List.mem_cons_self⟩⟩
      · simp [StaticEvent.rel?]
      · rintro r (hr | hr)
        · rcases List.mem_cons.mp hr with hr | hr
          · exact .inr ⟨hr, _, _, .inr List.mem_cons_self⟩
          · exact .inl (.inl hr)
        · exact .inl (.inr hr)

theorem pltStub_step (h : pltStub rel sym s = .ok v s') :
    ∃ es, StaticStep rel es s s' ∧ (WroteSymbol rel es ∨ s.pltgot.Knows rel.rSymbol) := by
  unfold pltStub at h
  obtain ⟨entry, s₁, hentry, hrest⟩ := Exec.bind_ok_iff.mp h
  unfold Static.addPltEntry PltGotSection.addPltEntry at hentry
  rw [Exec.bind_of_ok (Exec.get_apply s)] at hentry
  cases hlookup : s.pltgot.pltMap.lookup rel.rSymbol with
  | some idx =>
      rw [hlookup] at hentry
      cases hentry
      cases hrest
      refine ⟨[], ⟨(List.append_nil _).symm, nofun, fun r hr => .inl hr⟩, .inr (.inr ?_)⟩
      exact mem_of_lookup hlookup
  | none =>
      rw [hlookup] at hentry
      cases hentry
      obtain ⟨_, s₂, hfill, hstub⟩ := Exec.bind_ok_iff.mp hrest
      obtain ⟨callOffset, s₃, hunwrap, hcall⟩ := Exec.bind_ok_iff.mp hstub
      have hs₃ := unwrap_ok hunwrap
      cases hfill
      cases hs₃
      cases hcall
      refine ⟨_, ⟨rfl, ?_, ?_⟩, .inl ⟨_, _, .inr List.mem_cons_self⟩⟩
      · simp [StaticEvent.rel?]
      · rintro r (hr | hr)
        · exact .inl (.inl hr)
        · rcases List.mem_cons.mp hr with hr | hr
          · exact .inr ⟨hr, _, _, .inr List.mem_cons_self⟩
          · exact .inl (.inr hr)

/-- The branches that patch a section. -/
theorem patch_step {addr sym : BitVec 64} {bytes : List UInt8}
    (h : Static.patch rel addr sym bytes s = .ok () s') :
    ∃ es, StaticStep rel es s s' ∧ (WroteSymbol rel es ∨ s.pltgot.Knows rel.rSymbol) := by
  cases h
  exact ⟨_, .of_event rfl rfl rfl, .inl ⟨addr, sym, .inl List.mem_cons_self⟩⟩

/-- The branches that go through a slot: `get` provides it, and a field is
written that refers to it. -/
theorem link_step {get : Static K (BitVec 64)} {value : BitVec 64 → Option (BitVec 32)}
    (hget : ∀ {slot s₁}, get s = .ok slot s₁ →
      ∃ es, StaticStep rel es s s₁ ∧ (WroteSymbol rel es ∨ s.pltgot.Knows rel.rSymbol))
    {addr : BitVec 64}
    (h : (do
      let slot ← get
      let val ← Static.unwrap (value slot)
      Static.link rel addr slot (ByteMemory.leBytes val) : Static K Unit) s = .ok () s') :
    ∃ es, StaticStep rel es s s' ∧ (WroteSymbol rel es ∨ s.pltgot.Knows rel.rSymbol) := by
  obtain ⟨slot, s₁, hslot, hrest⟩ := Exec.bind_ok_iff.mp h
  obtain ⟨val, s₂, hunwrap, hlink⟩ := Exec.bind_ok_iff.mp hrest
  obtain ⟨es, hstep, hwrote⟩ := hget hslot
  have hs₂ := unwrap_ok hunwrap
  cases hlink
  cases hs₂
  refine ⟨es ++ [.linked rel addr slot], hstep.trans (.of_event rfl rfl rfl), ?_⟩
  rcases hwrote with hwrote | hknows
  · exact .inl (hwrote.mono (List.subset_append_left _ _))
  · exact .inr hknows

end Steps

section Relocate

variable [CustomHasher]
variable {ifunc : BitVec 64 → BitVec 64} {core : ElfCore 64} {scope : List (LoadedCore 64)}
  {preFind postFind : SymbolLookup 64}
variable {rel : ElfRelType 64} {s s' : StaticState K}

theorem fail_ne_ok {α : Type} {err : String} {a : α} :
    (fail core rel err : Static K α) s ≠ .ok a s' := by
  intro h
  obtain ⟨e, he⟩ := fail_error (α := α) core rel err s
  rw [he] at h
  cases h

theorem inRange_ok {α : Type} {o : Option α} {a : α} (h : inRange core rel o s = .ok a s') :
    s' = s := by
  cases o with
  | none => exact absurd h fail_ne_ok
  | some b =>
      cases h
      rfl

/-- The branches that patch a section with a value that may be out of range. -/
theorem range_step {α : Type} {o : Option α} {addr sym : BitVec 64} {bytes : α → List UInt8}
    (h : (do
      let val ← inRange core rel o
      Static.patch rel addr sym (bytes val) : Static K Unit) s = .ok () s') :
    ∃ es, StaticStep rel es s s' ∧ (WroteSymbol rel es ∨ s.pltgot.Knows rel.rSymbol) := by
  obtain ⟨val, s₁, hval, hpatch⟩ := Exec.bind_ok_iff.mp h
  obtain rfl := inRange_ok hval
  exact patch_step hpatch

/-- An entry that is relocated leaves the address of its symbol, unless a slot
for the symbol exists. -/
theorem relocate_step
    (h : relocate ifunc core scope preFind postFind rel s = .ok () s') :
    ∃ es, StaticStep rel es s s' ∧ (WroteSymbol rel es ∨ s.pltgot.Knows rel.rSymbol) := by
  cases hsym : symbolAddr ifunc core scope preFind postFind rel.rSymbol with
  | none =>
      obtain ⟨e, he⟩ := relocate_of_none (s := s) hsym
      rw [he] at h
      cases h
  | some sym =>
      rw [relocate_of_some hsym] at h
      split_ifs at h
      · exact patch_step h
      · exact range_step h
      · cases hval : toI32 (sym + rel.rAddend - (core.base + rel.rOffset)) with
        | some val =>
            rw [hval] at h
            exact patch_step h
        | none =>
            rw [hval] at h
            exact link_step pltStub_step h
      · exact link_step gotSlot_step h
      · exact range_step h
      · exact range_step h
      · exact absurd h fail_ne_ok

end Relocate

end X86_64Relocator

/-! ## Whole runs -/

section Runs

variable [CustomHasher]

/-- What the loop keeps: the events are about entries it has passed, every entry
it has passed left its symbol's address, and so did the entries behind the slots. -/
structure ObjectInv (passed : List (ElfRelType 64)) (s : StaticState K) : Prop where
  about : ∀ e ∈ s.trace, ∃ rel ∈ passed, e.rel? = some rel
  wrote : ∀ rel ∈ passed, ∃ rel', rel'.rSymbol = rel.rSymbol ∧ WroteSymbol rel' s.trace
  slots : ∀ r, s.pltgot.Knows r → ∃ rel, rel.rSymbol = r ∧ WroteSymbol rel s.trace

variable {ifunc : BitVec 64 → BitVec 64} {core : ElfCore 64} {scope : List (LoadedCore 64)}
  {preFind postFind : SymbolLookup 64} {s s' : StaticState K}

theorem ObjectInv.step {passed : List (ElfRelType 64)} {rel : ElfRelType 64}
    (hinv : ObjectInv passed s)
    (h : X86_64Relocator.relocate ifunc core scope preFind postFind rel s = .ok () s') :
    ObjectInv (passed ++ [rel]) s' := by
  obtain ⟨es, ⟨htrace, habout, hknows⟩, hwrote⟩ := X86_64Relocator.relocate_step h
  have hsub : s.trace ⊆ s'.trace := by
    rw [htrace]
    exact List.subset_append_left _ _
  have hsub' : es ⊆ s'.trace := by
    rw [htrace]
    exact List.subset_append_right _ _
  have hold {r : Nat} (hr : s.pltgot.Knows r) :
      ∃ rel', rel'.rSymbol = r ∧ WroteSymbol rel' s'.trace := by
    obtain ⟨rel', heq, hmem⟩ := hinv.slots r hr
    exact ⟨rel', heq, hmem.mono hsub⟩
  refine ⟨?_, ?_, ?_⟩
  · intro e he
    rw [htrace] at he
    rcases List.mem_append.mp he with he | he
    · obtain ⟨rel', hmem, heq⟩ := hinv.about e he
      exact ⟨rel', List.mem_append_left _ hmem, heq⟩
    · exact ⟨rel, List.mem_append_right _ List.mem_cons_self, habout e he⟩
  · intro rel' hmem
    rcases List.mem_append.mp hmem with hmem | hmem
    · obtain ⟨rel'', heq, hold⟩ := hinv.wrote rel' hmem
      exact ⟨rel'', heq, hold.mono hsub⟩
    · rw [List.mem_singleton.mp hmem]
      rcases hwrote with hwrote | hslot
      · exact ⟨rel, rfl, hwrote.mono hsub'⟩
      · exact hold hslot
  · intro r hr
    rcases hknows r hr with hr | ⟨rfl, hwrote⟩
    · exact hold hr
    · exact ⟨rel, rfl, hwrote.mono hsub'⟩

theorem ObjectInv.run {passed rels : List (ElfRelType 64)} (hinv : ObjectInv passed s)
    (h : rels.forM (X86_64Relocator.relocate ifunc core scope preFind postFind) s = .ok () s') :
    ObjectInv (passed ++ rels) s' := by
  induction rels generalizing passed s with
  | nil =>
      cases h
      rwa [List.append_nil]
  | cons rel rels ih =>
      obtain ⟨s₁, hstep, hrest⟩ := Exec.forM_cons_ok_iff.mp h
      have htail := ih (hinv.step hstep) hrest
      rwa [List.append_assoc] at htail

/-- The symbol of the entry is bound to the definition of a library of the scope. -/
def BoundTo (core : ElfCore 64) (scope : List (LoadedCore 64)) (preFind : SymbolLookup 64)
    (rSym : Nat) (lib : LoadedCore 64) : Prop :=
  ∃ sym info i found, core.symtab.symbolIdx rSym = .ok (sym, info) ∧
    preFind info.name = none ∧ sym.sym.isLocal = false ∧
    firstProvider scope info = .ok (some (lib, i, found))

/-- Every library of the scope whose address was written for an entry is a
dependency. -/
def KeepsLibraries (object : RawObject K) (scope : List (LoadedCore 64))
    (preFind : SymbolLookup 64) (loaded : LoadedCore 64) (s' : StaticState K) : Prop :=
  ∀ rel lib, WroteSymbol rel s'.trace → BoundTo object.core scope preFind rel.rSymbol lib →
    lib ∈ loaded.deps

variable {object : RawObject K} {os : OsState 64 K} {loaded : LoadedCore 64}

/-- A relocation that returned passed all entries and called the init handler once,
at the end. -/
theorem RawObject.run_trace (h : object.run ifunc scope preFind postFind os = .ok loaded s') :
    loaded = LoadedCore.fromCore object.core ∧
      ∃ s₁ : StaticState K, ObjectInv object.relocation.flatten s₁ ∧
        s'.trace = s₁.trace ++ [.initCalled (object.initArray.map (Slice.words s'.os.mem))] := by
  unfold RawObject.run RawObject.relocateImpl at h
  obtain ⟨_, s₁, hloop, hprotect⟩ := Exec.bind_ok_iff.mp h
  obtain ⟨_, s₂, hprot, hinit⟩ := Exec.bind_ok_iff.mp hprotect
  rw [Exec.forM_flatten] at hloop
  have hstart : ObjectInv []
      { os, pltgot := .new object.gotBase object.pltBase, trace := [] : StaticState K } :=
    ⟨nofun, nofun, fun r hr => by rcases hr with hr | hr <;> cases hr⟩
  have hinv := hstart.run hloop
  rw [List.nil_append] at hinv
  have hs₂ : s₂.trace = s₁.trace := by
    unfold RawObject.protect at hprot
    split at hprot
    · cases hprot
      rfl
    · cases hprot
  cases hinit
  refine ⟨rfl, s₁, hinv, ?_⟩
  rw [← hs₂]

/-- What a relocation that returned did, and that it returns no dependencies. -/
theorem RawObject.run_ok (h : object.run ifunc scope preFind postFind os = .ok loaded s') :
    loaded.deps = [] ∧
      (∀ rel, WroteSymbol rel s'.trace → rel ∈ object.relocation.flatten) ∧
      ∀ rel ∈ object.relocation.flatten,
        ∃ rel', rel'.rSymbol = rel.rSymbol ∧ WroteSymbol rel' s'.trace := by
  obtain ⟨rfl, s₁, hinv, htrace⟩ := RawObject.run_trace h
  refine ⟨rfl, ?_, ?_⟩
  · rintro rel ⟨addr, sym, hmem⟩
    rw [htrace] at hmem
    simp only [List.mem_append, List.mem_singleton, reduceCtorEq, or_false] at hmem
    rcases hmem with hmem | hmem
    · obtain ⟨rel', hrel', heq⟩ := hinv.about _ hmem
      cases heq
      exact hrel'
    · obtain ⟨rel', hrel', heq⟩ := hinv.about _ hmem
      cases heq
      exact hrel'
  · intro rel hrel
    obtain ⟨rel', heq, hwrote⟩ := hinv.wrote rel hrel
    refine ⟨rel', heq, hwrote.mono ?_⟩
    rw [htrace]
    exact List.subset_append_left _ _

/-- A relocated object keeps its libraries alive exactly when it is bound to none. -/
theorem object_keeps_libraries_iff (object : RawObject K) (ifunc : BitVec 64 → BitVec 64)
    (scope : List (LoadedCore 64)) (preFind postFind : SymbolLookup 64) (os : OsState 64 K)
    {loaded : LoadedCore 64} {s' : StaticState K}
    (h : object.run ifunc scope preFind postFind os = .ok loaded s') :
    KeepsLibraries object scope preFind loaded s' ↔
      ∀ rel ∈ object.relocation.flatten, ∀ lib,
        ¬ BoundTo object.core scope preFind rel.rSymbol lib := by
  obtain ⟨hdeps, hentries, hwrote⟩ := RawObject.run_ok h
  constructor
  · intro hkeeps rel hrel lib hbound
    obtain ⟨rel', heq, hwrote'⟩ := hwrote rel hrel
    have hmem := hkeeps rel' lib hwrote' (heq ▸ hbound)
    rw [hdeps] at hmem
    cases hmem
  · intro hnone rel lib hwrote' hbound
    exact absurd hbound (hnone rel (hentries rel hwrote') lib)

end Runs

section Sample

attribute [local instance] constantHasher

/-- An object with one absolute relocation for symbol 1. -/
def absoluteObject (core : ElfCore 64) : RawObject Unit where
  core
  relocation := [[⟨0x900, 0x100000001, 0⟩]]
  gotBase := 0x10c00
  pltBase := 0x10d00
  mprotect := pure ()
  initArray := none

theorem object_drops_bound_library :
    ∃ loaded s', (absoluteObject (sampleCore 1 stbGlobal 0 0)).run id [definesF none]
        (fun _ => none) (fun _ => none) ⟨fun _ => 0, ()⟩ = .ok loaded s' ∧
      ¬ KeepsLibraries (absoluteObject (sampleCore 1 stbGlobal 0 0)) [definesF none]
        (fun _ => none) loaded s' := by
  obtain ⟨loaded, s', hrun, hdeps, htrace⟩ : ∃ loaded s',
      (absoluteObject (sampleCore 1 stbGlobal 0 0)).run id [definesF none] (fun _ => none)
          (fun _ => none) ⟨fun _ => 0, ()⟩ = .ok loaded s' ∧ loaded.deps = [] ∧
        s'.trace = [.patched ⟨0x900, 0x100000001, 0⟩ 0x10900 0x20100, .initCalled none] :=
    ⟨_, _, rfl, rfl, rfl⟩
  refine ⟨loaded, s', hrun, fun hkeeps => ?_⟩
  have hmem := hkeeps ⟨0x900, 0x100000001, 0⟩ (definesF none)
    ⟨0x10900, 0x20100, .inl (by simp [htrace])⟩ ?_
  · rw [hdeps] at hmem
    cases hmem
  · refine ⟨⟨1, ⟨1, 0, 8, 0x12, 0, 0⟩⟩, { name := [102], version := none }, 0, _, ?_, rfl, rfl,
      firstProvider_eq_some_iff.mpr ⟨[], [], rfl, rfl, rfl, nofun⟩⟩
    rw [show ElfRelType.rSymbol (⟨0x900, 0x100000001, 0⟩ : ElfRelType 64) = 1 by decide]
    rfl

theorem object_keeps_own_definition :
    ∃ loaded s', (absoluteObject (sampleCore 1 stbGlobal 1 0x40)).run id [] (fun _ => none)
        (fun _ => none) ⟨fun _ => 0, ()⟩ = .ok loaded s' ∧
      KeepsLibraries (absoluteObject (sampleCore 1 stbGlobal 1 0x40)) [] (fun _ => none) loaded
        s' := by
  refine ⟨_, _, rfl, ?_⟩
  refine (object_keeps_libraries_iff (absoluteObject (sampleCore 1 stbGlobal 1 0x40)) id []
    (fun _ => none) (fun _ => none) ⟨fun _ => 0, ()⟩ rfl).mpr ?_
  rintro rel - lib ⟨sym, info, i, found, -, -, -, hprov⟩
  cases hprov

end Sample

end ElfLoader
