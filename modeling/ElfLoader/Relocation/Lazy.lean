import ElfLoader.Relocation.Deps

/-! # Lazy binding against eager binding

Eager binding resolves an entry by table index: own and local symbols, versions,
the scope in order, weak symbols. `dl_fixup` resolves the bare name, through the
custom scope or, without one, through the needed libraries. The theorem says for
which entries the two agree.
-/

namespace ElfLoader

variable {w : Nat} {K P Q : Type}

section Fixup

variable [CustomHasher]
variable {proc : Process w K} {image : DynamicImage proc.arch} {helper : RelocHelper w P Q}

/-- The call binds the slot of `rela` to `v` and returns it. -/
def FixupBinds (proc : Process w K) (image : DynamicImage proc.arch) (alive : Nat → Bool)
    (idx : Nat) (rela : ElfRelType w) (v : BitVec w) (s : RelocState w K P Q) : Prop :=
  ∃ s', image.dlFixup proc alive idx s = .ok v s' ∧
    s'.os.mem = ByteMemory.writeWord s.os.mem (image.core.base + rela.rOffset) v

theorem get_fromCore (ifunc : BitVec w → BitVec w) (lib : ElfCore w) (name : Name) :
    (LoadedCore.fromCore lib).get ifunc name =
      (lib.symtab.provided { name, version := none }).map
        (Option.map fun sym => SymDef.convert ifunc { sym := some sym, lib }) :=
  LoadedCore.getInfo_eq ifunc (.fromCore lib) { name, version := none }

/-- What the lazy scope finds for a name when all of its libraries exist: the
custom scope alone decides, or else the first library that provides the bare
name. -/
theorem LazyScope.lookup_eq (ifunc : BitVec w → BitVec w) (custom : Option (SymbolLookup w))
    {scope : List (LoadedCore w)} {alive : Nat → Bool}
    (halive : ∀ lib ∈ scope, alive lib.core.id = true) (name : Name) :
    LazyScope.lookup ifunc alive
        { libs := if custom.isNone then scope.map LoadedCore.core else [], customScope := custom }
        name =
      match custom with
      | some parent => .ok (parent name)
      | none => (firstProvider scope { name, version := none }).map (Option.map fun found =>
          SymDef.convert ifunc { sym := some found.2.2, lib := found.1.core }) := by
  unfold LazyScope.lookup
  cases custom with
  | some parent =>
      dsimp only [Option.bind_some, Option.isNone_some]
      cases parent name with
      | some v => rfl
      | none => rfl
  | none =>
      dsimp only [Option.bind_none, Option.isNone_none, if_true]
      unfold firstProvider
      rw [← Search.findFirst_map]
      conv_lhs => rw [← List.zipIdx_map_fst 0 scope, List.map_map]
      rw [if_pos rfl, Search.findFirst_comp]
      refine Search.findFirst_congr fun entry hentry => ?_
      dsimp only [Function.comp]
      rw [if_pos (halive entry.1 (List.fst_mem_of_mem_zipIdx hentry)), get_fromCore]
      change (entry.1.symtab.provided _).map _ = _
      cases entry.1.symtab.provided { name, version := none } with
      | error e => rfl
      | ok found => cases found <;> rfl

theorem fixupEntry_of_getElem? {slice : RelSlice w} {idx : Nat} {rela : ElfRelType w}
    (hslice : image.tables.pltrel = some slice) (hrela : slice.rels[idx]? = some rela) :
    image.fixupEntry proc idx = .ok rela := by
  unfold DynamicImage.fixupEntry
  rw [hslice]
  dsimp only
  rw [hrela]

/-- A call for a jump slot binds what the lazy scope finds for the name. -/
theorem fixupBinds_iff_lookup {alive : Nat → Bool} {idx : Nat} {rela : ElfRelType w}
    {sym : SymRef w} {info : SymbolInfo} {scope : LazyScope w} {v : BitVec w}
    {s : RelocState w K P Q} (hentry : image.fixupEntry proc idx = .ok rela)
    (hty : rela.rType = proc.arch.relJumpSlot)
    (hsym : image.core.symtab.symbolIdx rela.rSymbol = .ok (sym, info))
    (hscope : s.lazyScope = some scope) :
    FixupBinds proc image alive idx rela v s ↔
      rela.rSymbol ≠ 0 ∧ scope.lookup proc.ifunc alive info.name = .ok (some v) := by
  constructor
  · rintro ⟨s₁, hfixup, -⟩
    obtain ⟨rela', sym', info', scope', hentry', -, hne, hsym', hscope', hfound, -⟩ :=
      dlFixup_ok hfixup
    rw [hentry] at hentry'
    cases hentry'
    rw [hsym] at hsym'
    cases hsym'
    rw [hscope] at hscope'
    cases hscope'
    exact ⟨hne, hfound⟩
  · rintro ⟨hne, hlookup⟩
    unfold FixupBinds DynamicImage.dlFixup
    rw [hentry, Exec.bind_of_ok (Exec.lift_ok rela s), if_pos ⟨hty, hne⟩, hsym,
      Exec.bind_of_ok (Exec.lift_ok (sym, info) s)]
    dsimp only
    rw [Exec.bind_of_ok (Exec.get_apply s), hscope]
    dsimp only
    rw [hlookup, Exec.bind_of_ok (Exec.lift_ok (some v) s)]
    exact ⟨_, rfl, rfl⟩

theorem not_empty_of_slot {slice : RelSlice w} {idx : Nat} {rela : ElfRelType w}
    (hslice : image.tables.pltrel = some slice) (hrela : slice.rels[idx]? = some rela) :
    image.relocation.isEmpty = false := by
  have hplt := (DynamicRelocation.new_cases image.relocation_eq).1
  have hne : image.relocation.pltrel ≠ [] := by
    intro hnil
    have hlen := congrArg List.length hplt
    rw [hnil, hslice, RelSlice.refs_length] at hlen
    have hlt : idx < slice.rels.length := (List.getElem?_eq_some_iff.mp hrela).1
    rw [← show 0 = slice.rels.length from hlen] at hlt
    exact Nat.not_lt_zero idx hlt
  unfold DynamicRelocation.isEmpty
  rw [List.isEmpty_eq_false_iff.mpr hne, Bool.and_false]

/-- The definition that eager binding finds for a symbol and the first definition
that the scope gives to its bare name have the same address. -/
def SameTarget (ifunc : BitVec w → BitVec w) (core : ElfCore w) (scope : List (LoadedCore w))
    (sym : SymRef w) (info : SymbolInfo) : Prop :=
  ∃ symdef idx found, findSymdefImpl core scope sym info = .ok (some (symdef, idx)) ∧
    firstProvider scope { name := info.name, version := none } = .ok (some found) ∧
    symdef.convert ifunc = SymDef.convert ifunc { sym := some found.2.2, lib := found.1.core }

/-- For a symbol without a version the two agree when any library provides it. -/
theorem sameTarget_iff_of_unversioned (ifunc : BitVec w → BitVec w) (core : ElfCore w)
    {scope : List (LoadedCore w)} {sym : SymRef w} {info : SymbolInfo}
    (hlocal : sym.sym.isLocal = false) (hversion : info.version = none) :
    SameTarget ifunc core scope sym info ↔
      ∃ found, firstProvider scope info = .ok (some found) := by
  have hbare : ({ name := info.name, version := none } : SymbolInfo) = info := by
    rw [← hversion]
  unfold SameTarget
  rw [hbare]
  constructor
  · rintro ⟨symdef, idx, found, -, hprov, -⟩
    exact ⟨found, hprov⟩
  · rintro ⟨found, hprov⟩
    exact ⟨_, _, found, findSymdefImpl_of_provider core hlocal hprov, hprov, rfl⟩

/-- Without lookups of the caller, eager binding is the search for a definition. -/
theorem findAddr_symdef {ref : RelRef w} {sym : SymRef w} {info : SymbolInfo} {a : BitVec w}
    {lib : Option Nat} (hpre : ∀ name, helper.preFind name = none)
    (hpost : ∀ name, helper.postFind name = none)
    (hsym : image.core.symtab.symbolIdx ref.rel.rSymbol = .ok (sym, info))
    (h : image.findAddr proc helper ref = .ok (some (a, lib))) :
    ∃ symdef, findSymdefImpl image.core helper.scope sym info = .ok (some (symdef, lib)) ∧
      symdef.convert proc.ifunc = a := by
  unfold DynamicImage.findAddr at h
  rw [findSymbolAddr_of_no_pre hsym (hpre info.name)] at h
  obtain ⟨found, hfound, hret⟩ := Exec.except_map_ok_iff.mp h
  cases found with
  | none =>
      dsimp only at hret
      rw [hpost] at hret
      cases hret
  | some found =>
      obtain ⟨symdef, idx⟩ := found
      cases hret
      exact ⟨symdef, hfound, rfl⟩

/-- What the search by bare name finds is what eager binding found exactly when
both have the same target. -/
theorem lookup_provider_iff {ifunc : BitVec w → BitVec w} {core : ElfCore w}
    {scope : List (LoadedCore w)} {sym : SymRef w} {info : SymbolInfo} {symdef : SymDef w}
    {owner : Option Nat}
    (hsymdef : findSymdefImpl core scope sym info = .ok (some (symdef, owner))) :
    (firstProvider scope { name := info.name, version := none }).map (Option.map fun found =>
        SymDef.convert ifunc { sym := some found.2.2, lib := found.1.core }) =
        .ok (some (symdef.convert ifunc)) ↔
      SameTarget ifunc core scope sym info := by
  constructor
  · intro hfound
    obtain ⟨found, hprov, hmap⟩ := Exec.except_map_ok_iff.mp hfound
    obtain ⟨provider, rfl, hconvert⟩ := Option.map_eq_some_iff.mp hmap
    exact ⟨symdef, owner, provider, hsymdef, hprov, hconvert.symm⟩
  · rintro ⟨symdef', owner', provider, hsymdef', hprov, hconvert⟩
    rw [hsymdef] at hsymdef'
    cases hsymdef'
    rw [hprov]
    exact congrArg (fun v => Except.ok (some v)) hconvert.symm

end Fixup

section Refinement

variable [CustomHasher]
variable {proc : Process w K}

/-- After a lazy relocation, and any calls of `dl_fixup` since, a call for a jump
slot that eager relocation binds to `a` binds it to the custom scope's address of
the name, or else to `a`, exactly when the entry names a symbol and either the
custom scope knows the name, or there is no custom scope and the search by bare
name has the same target as the eager one. -/
theorem lazy_refines_eager_iff (image : DynamicImage proc.arch) (helper : RelocHelper w P Q)
    (custom : Option (SymbolLookup w)) (os : OsState w K) (pre : P) (post : Q)
    (calls : List ((Nat → Bool) × Nat)) {core : LoadedCore w} {s' s₁ : RelocState w K P Q}
    {alive : Nat → Bool} {slice : RelSlice w} {idx : Nat} {rela : ElfRelType w} {sym : SymRef w}
    {info : SymbolInfo} {a : BitVec w} {owner : Option Nat}
    (hneeded : ∀ lib ∈ helper.scope, image.neededLibs.contains lib.name = true)
    (hpre : ∀ name, helper.preFind name = none) (hpost : ∀ name, helper.postFind name = none)
    (hrun : image.run proc helper (some true) custom os pre post = .ok core s')
    (hcalls : image.dlFixups proc calls s' = .ok () s₁)
    (halive : ∀ lib ∈ core.deps, alive lib.core.id = true)
    (hslice : image.tables.pltrel = some slice) (hrela : slice.rels[idx]? = some rela)
    (hty : rela.rType = proc.arch.relJumpSlot)
    (hsym : image.core.symtab.symbolIdx rela.rSymbol = .ok (sym, info))
    (heager : image.findAddr proc helper ⟨.plt, idx, rela⟩ = .ok (some (a, owner))) :
    FixupBinds proc image alive idx rela ((custom.bind (· info.name)).getD a) s₁ ↔
      rela.rSymbol ≠ 0 ∧
        ((∃ v, custom.bind (· info.name) = some v) ∨
          (custom = none ∧ SameTarget proc.ifunc image.core helper.scope sym info)) := by
  obtain ⟨symdef, hsymdef, rfl⟩ := findAddr_symdef hpre hpost hsym heager
  have hempty := not_empty_of_slot hslice hrela
  have hfilter : (helper.scope.filter fun lib => image.neededLibs.contains lib.name) =
      helper.scope := List.filter_eq_self.mpr hneeded
  have hscope := run_lazyScope rfl hempty hrun
  rw [hfilter, ← dlFixups_lazyScope hcalls] at hscope
  have hlookup := LazyScope.lookup_eq proc.ifunc custom
    (fun lib hlib => halive lib (needed_mem_deps hempty hrun hlib (hneeded lib hlib))) info.name
  rw [fixupBinds_iff_lookup (fixupEntry_of_getElem? hslice hrela) hty hsym hscope, hlookup]
  refine and_congr_right fun _ => ?_
  cases custom with
  | some parent =>
      -- the library list is empty, so the custom scope alone decides
      dsimp only [Option.bind_some]
      cases parent info.name with
      | some v => simp
      | none => simp
  | none =>
      dsimp only [Option.bind_none, Option.getD_none]
      rw [lookup_provider_iff hsymdef]
      simp

end Refinement

section Sample

attribute [local instance] constantHasher

/-- A module that defines `f` at `0x40`. -/
def ownsF : ElfCore 64 := sampleCore 1 stbGlobal 1 0x40

theorem lazy_panics_on_own_definition :
    ∃ core s', (slotImage ownsF).run sampleProcess (plainHelper []) (some true) none emptyMemory ()
        () = .ok core s' ∧
      (slotImage ownsF).findAddr sampleProcess (plainHelper []) slotRef =
        .ok (some (0x10040, none)) ∧
      (∃ s₁, (slotImage ownsF).dlFixup sampleProcess (fun _ => true) 0 s' =
        .error (.panic "lazy bind fail") s₁) ∧
      ¬ FixupBinds sampleProcess (slotImage ownsF) (fun _ => true) 0 slotRef.rel 0x10040 s' := by
  refine ⟨_, _, rfl, rfl, ⟨_, rfl⟩, ?_⟩
  rintro ⟨s₁, hfixup, -⟩
  cases hfixup

theorem lazy_binds_needed_library :
    ∃ core s', (slotImage refersToF).run sampleProcess (plainHelper [definesF none]) (some true)
        none emptyMemory () () = .ok core s' ∧
      FixupBinds sampleProcess (slotImage refersToF) (fun _ => true) 0 slotRef.rel 0x20100 s' := by
  refine ⟨_, _, rfl, ?_⟩
  have hidx : slotRef.rel.rSymbol = 1 := by decide
  have hsym : refersToF.symtab.symbolIdx slotRef.rel.rSymbol =
      .ok (⟨1, ⟨1, 0, 8, 0x12, 0, 0⟩⟩, { name := [102], version := none }) := by
    rw [hidx]
    rfl
  refine (lazy_refines_eager_iff (slotImage refersToF) (plainHelper [definesF none]) none
    emptyMemory () () [] ?_ (fun _ => rfl) (fun _ => rfl) rfl rfl (fun _ _ => rfl) rfl
    rfl rfl hsym rfl).mpr ⟨by decide, .inr ⟨rfl, ?_⟩⟩
  · simp only [plainHelper, List.mem_singleton]
    rintro lib rfl
    rfl
  · exact (sameTarget_iff_of_unversioned id refersToF rfl rfl).mpr
      ⟨_, firstProvider_eq_some_iff.mpr ⟨[], [], rfl, rfl, rfl, nofun⟩⟩

end Sample

end ElfLoader
