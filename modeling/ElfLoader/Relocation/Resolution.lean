import ElfLoader.Elf.Custom
import ElfLoader.Elf.VersionLookup
import ElfLoader.Relocation.Resolve

/-! # What resolution returns

Five questions about `find_symbol_addr` and `find_symdef_impl`: whether a
module's own definition is found, whether a local symbol is, in which order the
sources of a symbol are asked, when the search returns at all, and whether the
hash cache that all libraries share makes a difference.
-/

namespace ElfLoader

open Search

/-! ## A module's own definitions -/

section Own

variable {w : Nat} [CustomHasher]
variable {ifunc : BitVec w → BitVec w} {preFind postFind : SymbolLookup w}
variable {core : ElfCore w} {scope : List (LoadedCore w)} {r : Nat} {info : SymbolInfo}
variable {ref : SymRef w}

theorem findWeak_of_undef (h : ref.sym.isWeak = true) (hu : ref.sym.isUndef = true) :
    findWeak core ref = if ref.sym.stValue = 0 then .ok (some { sym := none, lib := core })
      else .error (.panic "assertion failed: dynsym.st_value() == 0") := by
  simp only [findWeak, h, hu, Bool.and_self, if_true]

theorem findWeak_of_defined (h : (ref.sym.isWeak && ref.sym.isUndef) = false) :
    findWeak core ref = .ok (if ref.sym.stValue ≠ 0 then some { sym := some ref, lib := core }
      else none) := by
  rw [findWeak, h, if_neg Bool.false_ne_true]
  split
  · rfl
  · rfl

theorem findSymbolAddr_of_pre {a : BitVec w} (hsym : core.symtab.symbolIdx r = .ok (ref, info))
    (hpre : preFind info.name = some a) :
    findSymbolAddr ifunc preFind postFind core scope r = .ok (some (a, none)) := by
  unfold findSymbolAddr
  rw [hsym]
  simp only [bind, Except.bind, hpre]
  rfl

theorem findSymbolAddr_of_no_pre (hsym : core.symtab.symbolIdx r = .ok (ref, info))
    (hpre : preFind info.name = none) :
    findSymbolAddr ifunc preFind postFind core scope r =
      (findSymdefImpl core scope ref info).map fun found =>
        match found with
        | some (symdef, idx) => some (symdef.convert ifunc, idx)
        | none => (postFind info.name).map fun addr => (addr, none) := by
  unfold findSymbolAddr
  rw [hsym]
  simp only [bind, Except.bind, hpre]
  cases findSymdefImpl core scope ref info with
  | error e => rfl
  | ok found => cases found <;> rfl

/-- When nothing else provides a symbol the module defines, resolution falls back
to the module's own entry exactly when its value is not zero. -/
theorem own_definition_resolves_iff (ifunc : BitVec w → BitVec w)
    (preFind postFind : SymbolLookup w) (hsym : core.symtab.symbolIdx r = .ok (ref, info))
    (hdefined : ref.sym.isUndef = false)
    (hbind : ref.sym.stBind = stbGlobal ∨ ref.sym.stBind = stbWeak ∨
      ref.sym.stBind = stbGnuUnique)
    (hpre : preFind info.name = none)
    (hscope : ∀ lib ∈ scope, lib.symtab.provided info = .ok none) :
    (findSymdef core scope r = .ok (some ({ sym := some ref, lib := core }, none)) ∧
        (ref.sym.stType ≠ sttGnuIfunc → ref.sym.stType ≠ sttTls →
          findSymbolAddr ifunc preFind postFind core scope r =
            .ok (some (core.base + ref.sym.stValue, none)))) ↔
      ref.sym.stValue ≠ 0 := by
  have hlocal : ref.sym.isLocal = false := by
    rcases hbind with h | h | h <;> simp only [ElfSymbol.isLocal, h] <;> decide
  have hweak : findWeak core ref =
      .ok (if ref.sym.stValue ≠ 0 then some { sym := some ref, lib := core } else none) :=
    findWeak_of_defined (by simp [hdefined])
  have himpl := findSymdefImpl_of_none core hlocal (firstProvider_eq_none_iff.mpr hscope)
  rw [hweak] at himpl
  rw [findSymdef_eq hsym, findSymbolAddr_of_no_pre hsym hpre, himpl]
  by_cases hvalue : ref.sym.stValue ≠ 0
  · rw [if_pos hvalue]
    refine ⟨fun _ => hvalue, fun _ => ⟨rfl, fun hifunc _ => ?_⟩⟩
    simp only [Except.map, Option.map_some, SymDef.convert, if_neg hifunc]
  · rw [if_neg hvalue]
    refine ⟨fun h => ?_, fun h => absurd h hvalue⟩
    cases h.1

end Own

section Sample

attribute [local instance] constantHasher

/-- A module whose only symbol, the function `f` of the given binding, section
and value, has index 1. -/
def sampleCore (id : Nat) (bind : UInt8) (shndx : UInt16) (value : BitVec 64) : ElfCore 64 where
  id
  name := [109]
  symtab := oneBucket [⟨0, 0, 0, 0, 0, 0⟩, ⟨1, value, 8, bind <<< 4 ||| sttFunc, 0, shndx⟩]
    [0, 102, 0] none
  segments := { memory := 0x10000, offset := 0, len := 0x1000 }

theorem own_definition_at_zero_not_found :
    (sampleCore 1 stbGlobal 1 0).symtab.symbolIdx 1 =
        .ok (⟨1, ⟨1, 0, 8, 0x12, 0, 1⟩⟩, { name := [102], version := none }) ∧
      findSymdef (sampleCore 1 stbGlobal 1 0) [] 1 = .ok none ∧
      findSymbolAddr id (fun _ => none) (fun _ => none) (sampleCore 1 stbGlobal 1 0) [] 1 =
        .ok none := by
  refine ⟨rfl, rfl, rfl⟩

theorem own_definition_at_0x40_found :
    findSymbolAddr id (fun _ => none) (fun _ => none) (sampleCore 1 stbGlobal 1 0x40) [] 1 =
      .ok (some (0x10040, none)) := by
  have hsym : (sampleCore 1 stbGlobal 1 0x40).symtab.symbolIdx 1 =
      .ok (⟨1, ⟨1, 0x40, 8, 0x12, 0, 1⟩⟩, { name := [102], version := none }) := rfl
  have hscope : ∀ lib ∈ ([] : List (LoadedCore 64)),
      lib.symtab.provided { name := [102], version := none } = .ok none :=
    fun lib hlib => absurd hlib List.not_mem_nil
  have haddr : (sampleCore 1 stbGlobal 1 0x40).base + 0x40 = 0x10040 := by decide
  have hfound := (own_definition_resolves_iff id (fun _ => none) (fun _ => none) hsym rfl (.inl rfl)
    rfl hscope).mpr (by decide)
  rw [hfound.2 (by decide) (by decide), haddr]

end Sample

/-! ## Local symbols -/

section Locals

variable {w : Nat} [CustomHasher]
variable {core : ElfCore w} {scope : List (LoadedCore w)} {r : Nat} {info : SymbolInfo}
variable {ref : SymRef w}

/-- A local symbol resolves to its own entry exactly when the lookup that is
asked first does not bring another address for its name. -/
theorem local_symbol_resolves_iff (ifunc : BitVec w → BitVec w)
    (preFind postFind : SymbolLookup w) (hsym : core.symtab.symbolIdx r = .ok (ref, info))
    (hlocal : ref.sym.isLocal = true) (hifunc : ref.sym.stType ≠ sttGnuIfunc) :
    findSymbolAddr ifunc preFind postFind core scope r =
        .ok (some (core.base + ref.sym.stValue, none)) ↔
      preFind info.name = none ∨ preFind info.name = some (core.base + ref.sym.stValue) := by
  cases hpre : preFind info.name with
  | none =>
      rw [findSymbolAddr_of_no_pre hsym hpre, findSymdefImpl_of_local hlocal]
      simp [Except.map, SymDef.convert, if_neg hifunc]
  | some a =>
      rw [findSymbolAddr_of_pre hsym hpre]
      simp

end Locals

section Sample

attribute [local instance] constantHasher

/-- A strategy that knows `f`. -/
def knowsF (addr : BitVec 64) : SymbolLookup 64 := fun name =>
  if name = [102] then some addr else none

theorem local_symbol_not_interposed_by_fallback :
    findSymbolAddr id (fun _ => none) (knowsF 0x7000) (sampleCore 1 stbLocal 1 0x40) [] 1 =
      .ok (some (0x10040, none)) := by
  have hsym : (sampleCore 1 stbLocal 1 0x40).symtab.symbolIdx 1 =
      .ok (⟨1, ⟨1, 0x40, 8, 0x02, 0, 1⟩⟩, { name := [102], version := none }) := rfl
  exact (local_symbol_resolves_iff id (fun _ => none) (knowsF 0x7000) hsym rfl
    (by decide)).mpr (.inl rfl)

/-- The strategy asked first takes the local function `f` away from its module. -/
theorem local_symbol_interposed :
    (sampleCore 1 stbLocal 1 0x40).symtab.symbolIdx 1 =
        .ok (⟨1, ⟨1, 0x40, 8, 0x02, 0, 1⟩⟩, { name := [102], version := none }) ∧
      findSymbolAddr id (knowsF 0x7000) (fun _ => none) (sampleCore 1 stbLocal 1 0x40) [] 1 =
        .ok (some (0x7000, none)) ∧
      findSymdef (sampleCore 1 stbLocal 1 0x40) [] 1 =
        .ok (some (⟨some ⟨1, ⟨1, 0x40, 8, 0x02, 0, 1⟩⟩, sampleCore 1 stbLocal 1 0x40⟩, none)) :=
  ⟨rfl, rfl, rfl⟩

end Sample

/-! ## The order of the sources of an undefined symbol -/

section Order

variable {w : Nat} [CustomHasher]
variable {ifunc : BitVec w → BitVec w} {preFind postFind : SymbolLookup w}
variable {core : ElfCore w} {scope : List (LoadedCore w)} {r : Nat} {info : SymbolInfo}
variable {ref : SymRef w}

/-- The order the documentation of `pre_find` and `post_find` gives: the user's
first strategy, the scope, the user's fallback, and only then the default. -/
structure DocumentedOrder (ifunc : BitVec w → BitVec w) (preFind postFind : SymbolLookup w)
    (core : ElfCore w) (scope : List (LoadedCore w)) (r : Nat) (ref : SymRef w)
    (info : SymbolInfo) : Prop where
  pre_first : ∀ a, preFind info.name = some a →
    findSymbolAddr ifunc preFind postFind core scope r = .ok (some (a, none))
  scope_next : preFind info.name = none → ∀ before lib after found,
    scope = before ++ lib :: after → lib.symtab.provided info = .ok (some found) →
    (∀ lib' ∈ before, ∀ found', lib'.symtab.provided info ≠ .ok (some found')) →
    findSymbolAddr ifunc preFind postFind core scope r =
      .ok (some (SymDef.convert ifunc { sym := some found, lib := lib.core }, some before.length))
  post_next : preFind info.name = none →
    (∀ lib ∈ scope, ∀ found, lib.symtab.provided info ≠ .ok (some found)) →
    ∀ a, postFind info.name = some a →
    findSymbolAddr ifunc preFind postFind core scope r = .ok (some (a, none))
  default_last : preFind info.name = none →
    (∀ lib ∈ scope, ∀ found, lib.symtab.provided info ≠ .ok (some found)) →
    postFind info.name = none →
    findSymbolAddr ifunc preFind postFind core scope r =
      .ok (if ref.sym.isWeak then some (0, none) else none)

/-- What the code returns for an undefined symbol, by the outcome of the scope
search. The weak default comes before `post_find` is asked. -/
theorem findSymbolAddr_of_undef (ifunc : BitVec w → BitVec w) (postFind : SymbolLookup w)
    (scope : List (LoadedCore w)) (hsym : core.symtab.symbolIdx r = .ok (ref, info))
    (hundef : ref.sym.isUndef = true) (hvalue : ref.sym.stValue = 0)
    (hlocal : ref.sym.isLocal = false) (hpre : preFind info.name = none) :
    findSymbolAddr ifunc preFind postFind core scope r =
      (firstProvider scope info).map fun found =>
        match found with
        | some (lib, i, sym) =>
            some (SymDef.convert ifunc { sym := some sym, lib := lib.core },
              if lib.core.id = core.id then none else some i)
        | none =>
            if ref.sym.isWeak then some (0, none)
            else (postFind info.name).map fun addr => (addr, none) := by
  rw [findSymbolAddr_of_no_pre hsym hpre]
  cases hfirst : firstProvider scope info with
  | error e => rw [findSymdefImpl_of_error core hlocal hfirst]; rfl
  | ok found =>
      cases found with
      | some found => rw [findSymdefImpl_of_provider core hlocal hfirst]; rfl
      | none =>
          rw [findSymdefImpl_of_none core hlocal hfirst]
          cases hweak : ref.sym.isWeak with
          | true =>
              rw [findWeak_of_undef hweak hundef, if_pos hvalue]
              rfl
          | false =>
              rw [findWeak_of_defined (by simp [hweak]), if_neg (by simp [hvalue])]
              rfl

/-- The first library that provides a symbol, if any does. -/
theorem provider_cases (scope : List (LoadedCore w)) (info : SymbolInfo) :
    (∀ lib ∈ scope, ∀ found, lib.symtab.provided info ≠ .ok (some found)) ∨
      ∃ before lib after found, scope = before ++ lib :: after ∧
        lib.symtab.provided info = .ok (some found) ∧
        ∀ lib' ∈ before, ∀ found', lib'.symtab.provided info ≠ .ok (some found') := by
  by_cases h : ∃ lib ∈ scope, ∃ found, lib.symtab.provided info = .ok (some found)
  · obtain ⟨before, lib, after, rfl, ⟨found, hfound⟩, hbefore⟩ := exists_first h
    exact .inr ⟨before, lib, after, found, rfl, hfound, fun lib' hlib' found' h' =>
      hbefore lib' hlib' ⟨found', h'⟩⟩
  · exact .inl (fun lib hlib found hfound => h ⟨lib, hlib, found, hfound⟩)

theorem DocumentedOrder.of_pre {a : BitVec w} (hsym : core.symtab.symbolIdx r = .ok (ref, info))
    (hpre : preFind info.name = some a) :
    DocumentedOrder ifunc preFind postFind core scope r ref info := by
  refine ⟨fun b hb => findSymbolAddr_of_pre hsym hb, fun h => ?_, fun h => ?_, fun h => ?_⟩
  all_goals
    rw [hpre] at h
    cases h

/-- Whatever the scope holds, the documented order names an answer. -/
theorem DocumentedOrder.returns
    (hdoc : DocumentedOrder ifunc preFind postFind core scope r ref info)
    (hpre : preFind info.name = none) :
    ∃ found, findSymbolAddr ifunc preFind postFind core scope r = .ok found := by
  rcases provider_cases scope info with hnone | ⟨before, lib, after, found, hsplit, hlib, hb⟩
  · cases hpost : postFind info.name with
    | some a => exact ⟨_, hdoc.post_next hpre hnone a hpost⟩
    | none => exact ⟨_, hdoc.default_last hpre hnone hpost⟩
  · exact ⟨_, hdoc.scope_next hpre before lib after found hsplit hlib hb⟩

section Undefined

variable (hsym : core.symtab.symbolIdx r = .ok (ref, info)) (hundef : ref.sym.isUndef = true)
  (hvalue : ref.sym.stValue = 0) (hlocal : ref.sym.isLocal = false)
  (hpre : preFind info.name = none)

include hsym hundef hvalue hlocal hpre

theorem DocumentedOrder.provider_ne
    (hdoc : DocumentedOrder ifunc preFind postFind core scope r ref info) {lib : LoadedCore w}
    {i : Nat} {sym : SymRef w} (hfirst : firstProvider scope info = .ok (some (lib, i, sym))) :
    lib.core.id ≠ core.id := by
  intro hsame
  obtain ⟨before, after, hsplit, -, hlib, hbefore⟩ := firstProvider_eq_some_iff.mp hfirst
  have hscope := hdoc.scope_next hpre before lib after sym hsplit hlib
    (fun lib' hlib' found' h' => by rw [hbefore lib' hlib'] at h'; cases h')
  rw [findSymbolAddr_of_undef ifunc postFind scope hsym hundef hvalue hlocal hpre, hfirst] at hscope
  simp [Except.map, hsame] at hscope

theorem DocumentedOrder.weak_fallback
    (hdoc : DocumentedOrder ifunc preFind postFind core scope r ref info)
    (hfirst : firstProvider scope info = .ok none) (hweak : ref.sym.isWeak = true) {a : BitVec w}
    (ha : postFind info.name = some a) : a = 0 := by
  have hnone := firstProvider_eq_none_iff.mp hfirst
  have hpost := hdoc.post_next hpre
    (fun lib hlib found h => by rw [hnone lib hlib] at h; cases h) a ha
  rw [findSymbolAddr_of_undef ifunc postFind scope hsym hundef hvalue hlocal hpre, hfirst] at hpost
  simp only [Except.map, hweak, if_true, Except.ok.injEq, Option.some.injEq, Prod.mk.injEq,
    and_true] at hpost
  exact hpost.symm

theorem DocumentedOrder.of_provider {before after : List (LoadedCore w)} {lib : LoadedCore w}
    {sym : SymRef w} (hsplit : scope = before ++ lib :: after)
    (hbefore : ∀ lib' ∈ before, lib'.symtab.provided info = .ok none)
    (hlib : lib.symtab.provided info = .ok (some sym)) (hother : lib.core.id ≠ core.id) :
    DocumentedOrder ifunc preFind postFind core scope r ref info := by
  have hfirst := firstProvider_eq_some_iff.mpr ⟨before, after, hsplit, rfl, hlib, hbefore⟩
  have hcode := findSymbolAddr_of_undef ifunc postFind scope hsym hundef hvalue hlocal hpre
  rw [hfirst] at hcode
  have hmem : lib ∈ scope := by simp [hsplit]
  refine ⟨fun a ha => ?_, fun _ b l t f hsplit' hl hb => ?_, fun _ hnone => ?_, fun _ hnone => ?_⟩
  · rw [hpre] at ha
    cases ha
  · -- both splits are at the first provider
    have hfree : ∀ l ∈ before, ¬ ∃ found, l.symtab.provided info = .ok (some found) := by
      rintro l hl ⟨found, hfound⟩
      rw [hbefore l hl] at hfound
      cases hfound
    obtain ⟨rfl, rfl, rfl⟩ := first_unique (hsplit.symm.trans hsplit') hfree ⟨sym, hlib⟩
      (fun l hl ⟨found, hfound⟩ => hb l hl found hfound) ⟨f, hl⟩
    rw [hlib] at hl
    cases hl
    rw [hcode]
    simp [Except.map, hother]
  · exact absurd hlib (hnone lib hmem sym)
  · exact absurd hlib (hnone lib hmem sym)

theorem DocumentedOrder.of_none (hnone : ∀ lib ∈ scope, lib.symtab.provided info = .ok none)
    (hweak : ref.sym.isWeak = true → ∀ a, postFind info.name = some a → a = 0) :
    DocumentedOrder ifunc preFind postFind core scope r ref info := by
  have hcode := findSymbolAddr_of_undef ifunc postFind scope hsym hundef hvalue hlocal hpre
  rw [firstProvider_eq_none_iff.mpr hnone] at hcode
  refine ⟨fun a ha => ?_, fun _ b l t f hsplit hl hb => ?_, fun _ _ a ha => ?_,
    fun _ _ hpost => ?_⟩
  · rw [hpre] at ha
    cases ha
  · rw [hnone l (by simp [hsplit])] at hl
    cases hl
  · rw [hcode]
    cases hw : ref.sym.isWeak with
    | true => simp [Except.map, hweak hw a ha]
    | false => simp [Except.map, ha]
  · rw [hcode, hpost]
    cases ref.sym.isWeak <;> rfl

end Undefined

/-- The code keeps the documented order for an undefined symbol exactly when the
first strategy answers, or a library other than the module is the first to
provide the symbol, or nobody provides it and a weak symbol has no other value
in the fallback. -/
theorem documented_order_iff (ifunc : BitVec w → BitVec w) (preFind postFind : SymbolLookup w)
    (scope : List (LoadedCore w)) (hsym : core.symtab.symbolIdx r = .ok (ref, info))
    (hundef : ref.sym.isUndef = true) (hvalue : ref.sym.stValue = 0)
    (hbind : ref.sym.stBind = stbGlobal ∨ ref.sym.stBind = stbWeak) :
    DocumentedOrder ifunc preFind postFind core scope r ref info ↔
      (∃ a, preFind info.name = some a) ∨
      (∃ before lib after found, scope = before ++ lib :: after ∧
        (∀ lib' ∈ before, lib'.symtab.provided info = .ok none) ∧
        lib.symtab.provided info = .ok (some found) ∧ lib.core.id ≠ core.id) ∨
      ((∀ lib ∈ scope, lib.symtab.provided info = .ok none) ∧
        (ref.sym.isWeak = true → ∀ a, postFind info.name = some a → a = 0)) := by
  have hlocal : ref.sym.isLocal = false := by
    rcases hbind with h | h <;> simp only [ElfSymbol.isLocal, h] <;> decide
  cases hpre : preFind info.name with
  | some a => exact ⟨fun _ => .inl ⟨a, rfl⟩, fun _ => .of_pre hsym hpre⟩
  | none =>
      constructor
      · intro hdoc
        cases hfirst : firstProvider scope info with
        | error e =>
            -- the code would stop where the documented order has an answer
            obtain ⟨found, hfound⟩ := hdoc.returns hpre
            rw [findSymbolAddr_of_undef ifunc postFind scope hsym hundef hvalue hlocal hpre,
              hfirst] at hfound
            cases hfound
        | ok found =>
            cases found with
            | some found =>
                obtain ⟨lib, i, sym⟩ := found
                have hother := hdoc.provider_ne hsym hundef hvalue hlocal hpre hfirst
                obtain ⟨before, after, hsplit, -, hlib, hbefore⟩ :=
                  firstProvider_eq_some_iff.mp hfirst
                exact .inr (.inl ⟨before, lib, after, sym, hsplit, hbefore, hlib, hother⟩)
            | none =>
                refine .inr (.inr ⟨firstProvider_eq_none_iff.mp hfirst, fun hweak a ha => ?_⟩)
                exact hdoc.weak_fallback hsym hundef hvalue hlocal hpre hfirst hweak ha
      · rintro (⟨a, ha⟩ | ⟨before, lib, after, sym, hsplit, hbefore, hlib, hother⟩ |
          ⟨hnone, hweak⟩)
        · cases ha
        · exact .of_provider hsym hundef hvalue hlocal hpre hsplit hbefore hlib hother
        · exact .of_none hsym hundef hvalue hlocal hpre hnone hweak

end Order

section Sample

attribute [local instance] constantHasher

theorem weak_symbol_skips_fallback :
    ¬ DocumentedOrder id (fun _ => none) (knowsF 0x7000) (sampleCore 1 stbWeak 0 0) [] 1
      ⟨1, ⟨1, 0, 8, 0x22, 0, 0⟩⟩ { name := [102], version := none } := by
  intro hdoc
  have hpost := hdoc.post_next rfl (fun lib hlib => absurd hlib List.not_mem_nil) 0x7000 rfl
  have hcode : findSymbolAddr id (fun _ => none) (knowsF 0x7000) (sampleCore 1 stbWeak 0 0) [] 1 =
      .ok (some (0, none)) := rfl
  rw [hcode] at hpost
  exact absurd hpost (by decide)

theorem global_symbol_reaches_fallback :
    DocumentedOrder id (fun _ => none) (knowsF 0x7000) (sampleCore 1 stbGlobal 0 0) [] 1
      ⟨1, ⟨1, 0, 8, 0x12, 0, 0⟩⟩ { name := [102], version := none } :=
  (documented_order_iff id (fun _ => none) (knowsF 0x7000) [] rfl rfl rfl (.inl rfl)).mpr
    (.inr (.inr ⟨fun lib hlib => absurd hlib List.not_mem_nil, fun h => by cases h⟩))

end Sample

/-! ## When a versioned search returns -/

section Versioned

variable {w : Nat} [CustomHasher]
variable {ifunc : BitVec w → BitVec w} {preFind postFind : SymbolLookup w}
variable {core : ElfCore w} {scope : List (LoadedCore w)} {r : Nat} {info : SymbolInfo}
variable {ref : SymRef w}
variable {req : SymbolVersion}

/-- Every library the search reaches can check the version: none before it
offers the symbol, so the search gets there. -/
def ScopeSafe (scope : List (LoadedCore w)) (info : SymbolInfo) (req : SymbolVersion) : Prop :=
  ∀ before lib after, scope = before ++ lib :: after →
    (∀ lib' ∈ before, ¬ lib'.symtab.Offers info req) → lib.symtab.VersionSafe info req

theorem firstProvider_returns_iff (hreq : info.version = some req)
    (hwf : ∀ lib ∈ scope, lib.symtab.WellFormed info) :
    (∃ found, firstProvider scope info = .ok found) ↔ ScopeSafe scope info req := by
  unfold firstProvider
  rw [findFirst_returns_iff_of (fun entry => entry.1.symtab.VersionSafe info req)
    (fun entry => entry.1.symtab.Offers info req)]
  · unfold ScopeSafe
    constructor
    · rintro h before lib after rfl hbefore
      refine h before.zipIdx (lib, before.length) (after.zipIdx (before.length + 1)) ?_ ?_
      · rw [List.zipIdx_append, List.zipIdx_cons, Nat.zero_add]
      · rintro ⟨lib', i⟩ hmem
        exact hbefore lib' (List.fst_mem_of_mem_zipIdx hmem)
    · rintro h xs entry ys hsplit hbefore
      obtain ⟨before, rest, rfl, rfl, hrest⟩ := List.zipIdx_eq_append_iff.mp hsplit
      obtain ⟨lib, after, rfl, rfl, rfl⟩ := List.zipIdx_eq_cons_iff.mp hrest.symm
      refine h before lib after rfl (fun lib' hlib' => ?_)
      obtain ⟨i, hi⟩ := List.mem_iff_getElem?.mp hlib'
      exact hbefore (lib', i) (List.mem_zipIdx_iff_getElem?.mpr hi)
  · rintro ⟨lib, i⟩ hmem
    rw [← SymbolTable.provided_returns_iff hreq (hwf lib (List.fst_mem_of_mem_zipIdx hmem))]
    constructor
    · rintro ⟨found, hfound⟩
      obtain ⟨inner, hinner, -⟩ := Exec.except_map_ok_iff.mp hfound
      exact ⟨inner, hinner⟩
    · rintro ⟨inner, hinner⟩
      rw [hinner]
      exact ⟨_, rfl⟩
  · rintro ⟨lib, i⟩ hmem hsafe
    rw [← SymbolTable.provided_eq_none_iff hreq (hwf lib (List.fst_mem_of_mem_zipIdx hmem)) hsafe]
    dsimp only
    cases lib.symtab.provided info with
    | error e => simp [Except.map]
    | ok found => cases found <;> simp [Except.map]

theorem firstProvider_eq_none_iff_offers (hreq : info.version = some req)
    (hwf : ∀ lib ∈ scope, lib.symtab.WellFormed info) (hsafe : ScopeSafe scope info req) :
    firstProvider scope info = .ok none ↔ ∀ lib ∈ scope, ¬ lib.symtab.Offers info req := by
  obtain ⟨found, hfound⟩ := (firstProvider_returns_iff hreq hwf).mpr hsafe
  constructor
  · intro h lib hlib
    have hnone := firstProvider_eq_none_iff.mp h lib hlib
    have hlibsafe := (SymbolTable.provided_returns_iff hreq (hwf lib hlib)).mp ⟨none, hnone⟩
    exact (SymbolTable.provided_eq_none_iff hreq (hwf lib hlib) hlibsafe).mp hnone
  · intro h
    cases found with
    | none => exact hfound
    | some found =>
        obtain ⟨lib, i, sym⟩ := found
        obtain ⟨before, after, rfl, -, hlib, -⟩ := firstProvider_eq_some_iff.mp hfound
        have hmem : lib ∈ before ++ lib :: after := by simp
        have hlibsafe := (SymbolTable.provided_returns_iff hreq (hwf lib hmem)).mp ⟨_, hlib⟩
        have hnone :=
          (SymbolTable.provided_eq_none_iff hreq (hwf lib hmem) hlibsafe).mpr (h lib hmem)
        rw [hnone] at hlib
        cases hlib

theorem findSymdefImpl_returns_iff (hreq : info.version = some req)
    (hwf : ∀ lib ∈ scope, lib.symtab.WellFormed info) :
    (∃ found, findSymdefImpl core scope ref info = .ok found) ↔
      ref.sym.isLocal = true ∨
        (ScopeSafe scope info req ∧
          ((∀ lib ∈ scope, ¬ lib.symtab.Offers info req) →
            ref.sym.isWeak = true → ref.sym.isUndef = true → ref.sym.stValue = 0)) := by
  cases hlocal : ref.sym.isLocal with
  | true => exact ⟨fun _ => .inl rfl, fun _ => ⟨_, findSymdefImpl_of_local hlocal⟩⟩
  | false =>
      simp only [Bool.false_eq_true, false_or]
      constructor
      · intro hreturns
        have hsafe : ScopeSafe scope info req := by
          rw [← firstProvider_returns_iff hreq hwf]
          cases hfirst : firstProvider scope info with
          | ok found => exact ⟨found, rfl⟩
          | error e =>
              rw [findSymdefImpl_of_error core hlocal hfirst] at hreturns
              obtain ⟨found, hfound⟩ := hreturns
              cases hfound
        refine ⟨hsafe, fun hnone hweak hundef => ?_⟩
        have hfirst := (firstProvider_eq_none_iff_offers hreq hwf hsafe).mpr hnone
        rw [findSymdefImpl_of_none core hlocal hfirst, findWeak_of_undef hweak hundef] at hreturns
        by_contra hvalue
        rw [if_neg hvalue] at hreturns
        obtain ⟨found, hfound⟩ := hreturns
        cases hfound
      · rintro ⟨hsafe, hvalue⟩
        obtain ⟨found, hfirst⟩ := (firstProvider_returns_iff hreq hwf).mpr hsafe
        cases found with
        | some found => exact ⟨_, findSymdefImpl_of_provider core hlocal hfirst⟩
        | none =>
            have hnone := (firstProvider_eq_none_iff_offers hreq hwf hsafe).mp hfirst
            rw [findSymdefImpl_of_none core hlocal hfirst]
            by_cases hwu : ref.sym.isWeak = true ∧ ref.sym.isUndef = true
            · rw [findWeak_of_undef hwu.1 hwu.2, if_pos (hvalue hnone hwu.1 hwu.2)]
              exact ⟨_, rfl⟩
            · rw [findWeak_of_defined (by simpa using hwu)]
              exact ⟨_, rfl⟩

theorem getVersion_returns_iff {lib : LoadedCore w} {name version : Name}
    (hversion : lib.symtab.version = none)
    (hwf : lib.symtab.WellFormed { name, version := none }) :
    (∃ found, lib.getVersion ifunc name version = .ok found) ↔
      version ≠ [] ∧ (lib.symtab.Standard → ∀ cs,
        lib.symtab.candidates { name, version := none } = .ok cs →
        ∀ i ∈ cs, lib.symtab.nameAt i ≠ .ok name) := by
  -- the chain of a name does not depend on the required version
  have hprovided : ∀ v, (∃ found, lib.symtab.provided { name, version := some v } = .ok found) ↔
      (lib.symtab.Standard → ∀ cs, lib.symtab.candidates { name, version := none } = .ok cs →
        ∀ i ∈ cs, lib.symtab.nameAt i ≠ .ok name) := by
    intro v
    have hwf' : lib.symtab.WellFormed { name, version := some v } := hwf
    rw [SymbolTable.provided_returns_iff rfl hwf', SymbolTable.versionSafe_of_unversioned hversion]
    rfl
  constructor
  · rintro ⟨found, hfound⟩
    obtain ⟨info, hinfo, hget⟩ := Exec.except_bind_ok_iff.mp hfound
    obtain ⟨v, hv, hret⟩ := Exec.except_bind_ok_iff.mp hinfo
    cases hret
    refine ⟨SymbolVersion.new_returns_iff.mp ⟨v, hv⟩, (hprovided v).mp ?_⟩
    rw [LoadedCore.getInfo_eq] at hget
    obtain ⟨inner, hinner, -⟩ := Exec.except_map_ok_iff.mp hget
    exact ⟨inner, hinner⟩
  · rintro ⟨hne, hfree⟩
    obtain ⟨v, hv⟩ := SymbolVersion.new_returns_iff.mpr hne
    obtain ⟨inner, hinner⟩ := (hprovided v).mpr hfree
    have hinfo : SymbolInfo.fromStr name (some version) = .ok { name, version := some v } :=
      Exec.except_bind_ok_iff.mpr ⟨v, hv, rfl⟩
    have hget := LoadedCore.getInfo_eq ifunc lib { name, version := some v }
    rw [hinner] at hget
    exact ⟨_, Exec.except_bind_ok_iff.mpr ⟨_, hinfo, hget⟩⟩

/-- A search for a versioned symbol returns exactly when every library it reaches
has a version record for each entry it has to compare, and the weak fallback
does not meet a value. A lookup by name and version in a library without
version data returns exactly when the version is not empty and no entry of the
chain bears the name. -/
theorem versioned_search_returns_iff (ifunc : BitVec w → BitVec w) (core : ElfCore w)
    (ref : SymRef w) (hreq : info.version = some req)
    (hwf : ∀ lib ∈ scope, lib.symtab.WellFormed info) :
    ((∃ found, findSymdefImpl core scope ref info = .ok found) ↔
      ref.sym.isLocal = true ∨
        (ScopeSafe scope info req ∧
          ((∀ lib ∈ scope, ¬ lib.symtab.Offers info req) →
            ref.sym.isWeak = true → ref.sym.isUndef = true → ref.sym.stValue = 0))) ∧
      ∀ (lib : LoadedCore w) (name version : Name), lib.symtab.version = none →
        lib.symtab.WellFormed { name, version := none } →
        ((∃ found, lib.getVersion ifunc name version = .ok found) ↔
          version ≠ [] ∧ (lib.symtab.Standard → ∀ cs,
            lib.symtab.candidates { name, version := none } = .ok cs →
            ∀ i ∈ cs, lib.symtab.nameAt i ≠ .ok name)) :=
  ⟨findSymdefImpl_returns_iff hreq hwf, fun _ _ _ => getVersion_returns_iff⟩

end Versioned

section Sample

attribute [local instance] constantHasher

/-- A dylib that defines `f`, with version data or without. -/
def definesF (version : Option ELFVersion) : LoadedCore 64 :=
  .fromCore
    { id := 2
      name := [108]
      symtab := oneBucket [⟨0, 0, 0, 0, 0, 0⟩, ⟨1, 0x100, 8, 0x12, 0, 1⟩] [0, 102, 0] version
      segments := { memory := 0x20000, offset := 0, len := 0x1000 } }

/-- Version data in which `f` is the hidden `V1`. -/
def versionV1 : ELFVersion where
  versionIds := [0, 0x8002]
  versions := [none, none, some ⟨[86, 49], 0x591⟩]

theorem versioned_search_panics_on_unversioned_library :
    findSymdefImpl (sampleCore 1 stbGlobal 0 0) [definesF none] ⟨1, ⟨1, 0, 8, 0x12, 0, 0⟩⟩
        requiresV1 = .error (.panic "called `Option::unwrap()` on a `None` value") ∧
      (definesF none).getVersion id [102] [86, 49] =
        .error (.panic "called `Option::unwrap()` on a `None` value") := by
  exact ⟨rfl, rfl⟩

theorem versioned_search_returns_on_versioned_library :
    (∃ found, findSymdefImpl (sampleCore 1 stbGlobal 0 0) [definesF (some versionV1)]
        ⟨1, ⟨1, 0, 8, 0x12, 0, 0⟩⟩ requiresV1 = .ok found) ∧
      ∃ found, (definesF none).getVersion id [103] [86, 49] = .ok found := by
  have hcs : (definesF (some versionV1)).symtab.candidates requiresV1 = .ok [1] := rfl
  have hcs' : (definesF none).symtab.candidates { name := [103], version := none } = .ok [1] := rfl
  have hwf : ∀ lib ∈ [definesF (some versionV1)], lib.symtab.WellFormed requiresV1 := by
    simp only [List.mem_singleton]
    rintro lib rfl
    exact ⟨[1], hcs, by simp only [List.mem_singleton]; rintro i rfl; exact ⟨[102], rfl⟩⟩
  have hwf' : (definesF none).symtab.WellFormed { name := [103], version := none } :=
    ⟨[1], hcs', by simp only [List.mem_singleton]; rintro i rfl; exact ⟨[102], rfl⟩⟩
  have hsafe : (definesF (some versionV1)).symtab.VersionSafe requiresV1
      ⟨[86, 49], 0x591, false⟩ := by
    intro _ before idx after h _ _
    rw [hcs] at h
    cases before with
    | nil =>
        cases h
        exact ⟨_, rfl⟩
    | cons x before => simp at h
  obtain ⟨hsearch, hversion⟩ := versioned_search_returns_iff id (sampleCore 1 stbGlobal 0 0)
    ⟨1, ⟨1, 0, 8, 0x12, 0, 0⟩⟩ (rfl : requiresV1.version = some ⟨[86, 49], 0x591, false⟩) hwf
  refine ⟨hsearch.mpr (.inr ⟨?_, fun _ hweak => by cases hweak⟩),
    (hversion (definesF none) [103] [86, 49] rfl hwf').mpr ⟨by decide, ?_⟩⟩
  · intro before lib after h _
    cases before with
    | nil =>
        cases h
        exact hsafe
    | cons x before => simp at h
  · intro _ cs h i hi
    rw [hcs'] at h
    cases h
    rw [List.mem_singleton.mp hi]
    exact fun hname => by cases hname

end Sample

/-! ## The shared hash cache -/

section Shared

variable {w : Nat} [CustomHasher]
variable {core : ElfCore w} {scope : List (LoadedCore w)} {info : SymbolInfo} {ref : SymRef w}

/-- A library searched with a cache of its own. -/
def LoadedCore.lookupAlone (lib : LoadedCore w) (info : SymbolInfo) :
    Except Halt (Option (SymRef w)) :=
  (lib.symtab.lookupFilter info (info.precompute w)).map Prod.fst

/-- `find_symdef_impl` with a new cache for each library. -/
def findSymdefAlone (core : ElfCore w) (scope : List (LoadedCore w)) (sym : SymRef w)
    (info : SymbolInfo) : Except Halt (Option (SymDef w × Option Nat)) := do
  if sym.sym.isLocal then
    return some ({ sym := some sym, lib := core }, none)
  else
    let found ← findFirst (fun entry => (entry.1.lookupAlone info).map
      (Option.map fun sym => (entry.1, entry.2, sym))) scope.zipIdx
    match found with
    | some (lib, i, sym) =>
        return some ({ sym := some sym, lib := lib.core },
          if lib.core.id = core.id then none else some i)
    | none =>
        let weak ← findWeak core sym
        return weak.map fun symdef => (symdef, none)

/-- The library at `i` is the first one whose `lookup_filter` succeeds. -/
structure FirstIn (scope : List (LoadedCore w)) (info : SymbolInfo) (i : Nat) (lib : LoadedCore w)
    (ref : SymRef w) : Prop where
  lib_at : scope[i]? = some lib
  found : lib.lookupAlone info = .ok (some ref)
  before : ∀ j < i, ∀ lib', scope[j]? = some lib' → lib'.lookupAlone info = .ok none

theorem LoadedCore.lookupAlone_eq (lib : LoadedCore w) (info : SymbolInfo) :
    lib.lookupAlone info = lib.symtab.provided info := by
  obtain ⟨pre', -, hlookup⟩ := lib.symtab.lookupFilter_sound (precompute_sound info)
  unfold lookupAlone
  rw [hlookup]
  cases lib.symtab.provided info with
  | error e => rfl
  | ok found => rfl

theorem findSymdefImpl_eq_alone (core : ElfCore w) (scope : List (LoadedCore w)) (ref : SymRef w)
    (info : SymbolInfo) :
    findSymdefImpl core scope ref info = findSymdefAlone core scope ref info := by
  unfold findSymdefAlone
  simp only [LoadedCore.lookupAlone_eq]
  change _ = if _ then _ else firstProvider scope info >>= _
  cases hlocal : ref.sym.isLocal with
  | true =>
      rw [findSymdefImpl_of_local hlocal]
      rfl
  | false =>
      cases hfirst : firstProvider scope info with
      | error e =>
          rw [findSymdefImpl_of_error core hlocal hfirst]
          rfl
      | ok found =>
          cases found with
          | some found =>
              rw [findSymdefImpl_of_provider core hlocal hfirst]
              rfl
          | none =>
              rw [findSymdefImpl_of_none core hlocal hfirst]
              change _ = findWeak core ref >>= _
              cases findWeak core ref with
              | error e => rfl
              | ok weak => rfl

theorem firstIn_iff {i : Nat} {lib : LoadedCore w} :
    FirstIn scope info i lib ref ↔ firstProvider scope info = .ok (some (lib, i, ref)) := by
  rw [firstProvider_eq_some_iff]
  constructor
  · rintro ⟨hlib, hfound, hbefore⟩
    obtain ⟨hlt, rfl⟩ := List.getElem?_eq_some_iff.mp hlib
    refine ⟨scope.take i, scope.drop (i + 1), ?_, ?_, ?_, ?_⟩
    · rw [List.getElem_cons_drop, List.take_append_drop]
    · rw [List.length_take, Nat.min_eq_left (Nat.le_of_lt hlt)]
    · rw [← LoadedCore.lookupAlone_eq, hfound]
    · intro lib' hmem
      obtain ⟨j, hj⟩ := List.mem_iff_getElem?.mp hmem
      have hji : j < i := by
        have hlen := (List.getElem?_eq_some_iff.mp hj).1
        rw [List.length_take] at hlen
        omega
      rw [List.getElem?_take_of_lt hji] at hj
      rw [← LoadedCore.lookupAlone_eq, hbefore j hji lib' hj]
  · rintro ⟨before, after, rfl, rfl, hfound, hbefore⟩
    refine ⟨by simp, ?_, fun j hj lib' hlib' => ?_⟩
    · rw [LoadedCore.lookupAlone_eq, hfound]
    · rw [List.getElem?_append_left hj] at hlib'
      rw [LoadedCore.lookupAlone_eq, hbefore lib' (List.mem_of_getElem? hlib')]

/-- The cache that one search hands from library to library changes nothing: the
search is the one with a new cache each time. A definition comes from the first
library whose `lookup_filter` succeeds, with its index unless that library is the
module itself; without such a library only the weak fallback is left. -/
theorem shared_cache_search (core : ElfCore w) (scope : List (LoadedCore w)) (info : SymbolInfo)
    (hlocal : ref.sym.isLocal = false) :
    findSymdefImpl core scope ref info = findSymdefAlone core scope ref info ∧
      (∀ i lib found, FirstIn scope info i lib found →
        findSymdefImpl core scope ref info = .ok (some ({ sym := some found, lib := lib.core },
          if lib.core.id = core.id then none else some i))) ∧
      ∀ symdef idx, findSymdefImpl core scope ref info = .ok (some (symdef, idx)) →
        (∃ i lib found, FirstIn scope info i lib found ∧
          symdef = { sym := some found, lib := lib.core } ∧
          (idx = none ↔ lib.core.id = core.id) ∧ ∀ j, idx = some j → j = i) ∨
        ((∀ lib ∈ scope, lib.lookupAlone info = .ok none) ∧
          findWeak core ref = .ok (some symdef) ∧ idx = none) := by
  refine ⟨findSymdefImpl_eq_alone core scope ref info, fun i lib found hfirst => ?_,
    fun symdef idx h => ?_⟩
  · exact findSymdefImpl_of_provider core hlocal (firstIn_iff.mp hfirst)
  · cases hfirst : firstProvider scope info with
    | error e =>
        rw [findSymdefImpl_of_error core hlocal hfirst] at h
        cases h
    | ok found =>
        cases found with
        | some found =>
            obtain ⟨lib, i, found⟩ := found
            rw [findSymdefImpl_of_provider core hlocal hfirst] at h
            cases h
            refine .inl ⟨i, lib, found, firstIn_iff.mpr hfirst, rfl, ?_, ?_⟩
            · split_ifs with hsame
              · exact ⟨fun _ => hsame, fun _ => rfl⟩
              · exact ⟨nofun, fun h => absurd h hsame⟩
            · intro j hj
              split_ifs at hj
              cases hj
              rfl
        | none =>
            rw [findSymdefImpl_of_none core hlocal hfirst] at h
            obtain ⟨weak, hweak, hmap⟩ := Exec.except_map_ok_iff.mp h
            cases weak with
            | none => cases hmap
            | some weak =>
                cases hmap
                refine .inr ⟨fun lib hlib => ?_, hweak, rfl⟩
                rw [LoadedCore.lookupAlone_eq]
                exact firstProvider_eq_none_iff.mp hfirst lib hlib

end Shared

section Sample

attribute [local instance] constantHasher

/-- A relocatable object that exports `f` at `0x40`. -/
def objectWithF : LoadedCore 64 :=
  .fromCore
    { id := 3
      name := [111]
      symtab := .fromShdrs
        (.probing [⟨[], 0⟩, ⟨[102], 1⟩] [⟨[], 0⟩, ⟨[102], 1⟩] fun _ => Iff.rfl)
        [⟨0, 0, 0, 0, 0, 0⟩, ⟨1, 0x40, 8, 0x12, 0, 1⟩] [0, 102, 0]
      segments := { memory := 0x30000, offset := 0, len := 0x1000 } }

/-- A SysV table without `f` fills the cache, the custom table behind it answers. -/
theorem shared_cache_search_mixed_scope :
    findSymdefImpl (sampleCore 1 stbGlobal 0 0)
        [.fromCore (sampleCore 1 stbGlobal 0 0), objectWithF]
        ⟨1, ⟨1, 0, 8, 0x12, 0, 0⟩⟩ { name := [102], version := none } =
      .ok (some ({ sym := some ⟨1, ⟨1, 0x40, 8, 0x12, 0, 1⟩⟩, lib := objectWithF.core },
        some 1)) := by
  obtain ⟨-, hfirst, -⟩ := shared_cache_search (sampleCore 1 stbGlobal 0 0)
    [.fromCore (sampleCore 1 stbGlobal 0 0), objectWithF] { name := [102], version := none }
    (rfl : (⟨1, ⟨1, 0, 8, 0x12, 0, 0⟩⟩ : SymRef 64).sym.isLocal = false)
  refine hfirst 1 objectWithF ⟨1, ⟨1, 0x40, 8, 0x12, 0, 1⟩⟩ ⟨rfl, rfl, fun j hj lib' hlib' => ?_⟩
  have hzero : j = 0 := by omega
  subst hzero
  cases hlib'
  rfl

end Sample

end ElfLoader
