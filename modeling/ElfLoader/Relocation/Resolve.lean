import ElfLoader.Image.Core

/-! # Symbol resolution (`src/relocation/utils.rs`)

`findSymdefImpl` and `findSymbolAddr` follow the source; the search through the
scope threads one hash cache. `firstProvider` is the same search said plainly:
the first library of the scope that provides the symbol, with its index.
-/

namespace ElfLoader

open Search

variable {w : Nat} [CustomHasher]

def findWeak (lib : ElfCore w) (dynsym : SymRef w) : Except Halt (Option (SymDef w)) :=
  if dynsym.sym.isWeak && dynsym.sym.isUndef then
    if dynsym.sym.stValue = 0 then .ok (some { sym := none, lib })
    else .error (.panic "assertion failed: dynsym.st_value() == 0")
  else if dynsym.sym.stValue ≠ 0 then .ok (some { sym := some dynsym, lib })
  else .ok none

/-- The test of the scope search on the library at index `i`. The index is not
reported when the library is the module itself. -/
def tryLibrary (core : ElfCore w) (info : SymbolInfo) (entry : LoadedCore w × Nat)
    (pre : PreCompute w) : Except Halt (Option (SymDef w × Option Nat) × PreCompute w) := do
  let (lib, i) := entry
  let (found, pre) ← lib.symtab.lookupFilter info pre
  return (found.map fun sym =>
    ({ sym := some sym, lib := lib.core }, if lib.core.id = core.id then none else some i), pre)

def findSymdefImpl (core : ElfCore w) (scope : List (LoadedCore w)) (sym : SymRef w)
    (info : SymbolInfo) : Except Halt (Option (SymDef w × Option Nat)) := do
  if sym.sym.isLocal then
    return some ({ sym := some sym, lib := core }, none)
  else
    match ← searchWith (tryLibrary core info) scope.zipIdx (info.precompute w) with
    | some found => return some found
    | none =>
        let weak ← findWeak core sym
        return weak.map fun symdef => (symdef, none)

/-- `RelocationContext::find_symdef`. -/
def findSymdef (core : ElfCore w) (scope : List (LoadedCore w)) (rSym : Nat) :
    Except Halt (Option (SymDef w × Option Nat)) := do
  let (sym, info) ← core.symtab.symbolIdx rSym
  findSymdefImpl core scope sym info

def findSymbolAddr (ifunc : BitVec w → BitVec w) (preFind postFind : SymbolLookup w)
    (core : ElfCore w) (scope : List (LoadedCore w)) (rSym : Nat) :
    Except Halt (Option (BitVec w × Option Nat)) := do
  let (dynsym, info) ← core.symtab.symbolIdx rSym
  match preFind info.name with
  | some addr => return some (addr, none)
  | none =>
      match ← findSymdefImpl core scope dynsym info with
      | some (symdef, idx) => return some (symdef.convert ifunc, idx)
      | none => return (postFind info.name).map fun addr => (addr, none)

/-! ## The scope search -/

/-- The first library that provides the symbol: its definition and its index. -/
def firstProvider (scope : List (LoadedCore w)) (info : SymbolInfo) :
    Except Halt (Option (LoadedCore w × Nat × SymRef w)) :=
  findFirst (fun entry => (entry.1.symtab.provided info).map
    (Option.map fun sym => (entry.1, entry.2, sym))) scope.zipIdx

variable {core : ElfCore w} {scope : List (LoadedCore w)} {info : SymbolInfo} {sym : SymRef w}

theorem tryLibrary_sound (core : ElfCore w) (entry : LoadedCore w × Nat) {pre : PreCompute w}
    (hpre : pre.Sound info) :
    ∃ pre', PreCompute.Sound info pre' ∧
      tryLibrary core info entry pre =
        ((entry.1.symtab.provided info).map (Option.map fun sym =>
          ({ sym := some sym, lib := entry.1.core : SymDef w },
            if entry.1.core.id = core.id then none else some entry.2))).map
          fun found => (found, pre') := by
  obtain ⟨pre', hpre', hlookup⟩ := entry.1.symtab.lookupFilter_sound hpre
  refine ⟨pre', hpre', ?_⟩
  unfold tryLibrary
  dsimp only
  rw [hlookup]
  cases entry.1.symtab.provided info with
  | error e => rfl
  | ok found => rfl

/-- The binding a provider gives. -/
def providerDef (core : ElfCore w) (found : LoadedCore w × Nat × SymRef w) :
    SymDef w × Option Nat :=
  ({ sym := some found.2.2, lib := found.1.core },
    if found.1.core.id = core.id then none else some found.2.1)

/-- The search with a shared cache is the plain search. -/
theorem searchWith_tryLibrary (core : ElfCore w) (scope : List (LoadedCore w))
    (info : SymbolInfo) :
    searchWith (tryLibrary core info) scope.zipIdx (info.precompute w) =
      (firstProvider scope info).map (Option.map (providerDef core)) := by
  unfold firstProvider
  rw [← findFirst_map]
  refine searchWith_eq ?_ _ (precompute_sound info)
  intro entry pre hpre
  obtain ⟨pre', hpre', htry⟩ := tryLibrary_sound core entry hpre
  refine ⟨pre', hpre', htry.trans ?_⟩
  cases entry.1.symtab.provided info with
  | error e => rfl
  | ok found => cases found <;> rfl

theorem findSymdefImpl_of_local (hlocal : sym.sym.isLocal = true) :
    findSymdefImpl core scope sym info = .ok (some ({ sym := some sym, lib := core }, none)) := by
  unfold findSymdefImpl
  rw [if_pos hlocal]
  rfl

theorem findSymdefImpl_of_provider (core : ElfCore w) {found : LoadedCore w × Nat × SymRef w}
    (hlocal : sym.sym.isLocal = false) (h : firstProvider scope info = .ok (some found)) :
    findSymdefImpl core scope sym info = .ok (some (providerDef core found)) := by
  unfold findSymdefImpl
  rw [if_neg (by simp [hlocal]), searchWith_tryLibrary, h]
  rfl

theorem findSymdefImpl_of_none (core : ElfCore w) (hlocal : sym.sym.isLocal = false)
    (h : firstProvider scope info = .ok none) :
    findSymdefImpl core scope sym info =
      (findWeak core sym).map (Option.map fun symdef => (symdef, none)) := by
  unfold findSymdefImpl
  rw [if_neg (by simp [hlocal]), searchWith_tryLibrary, h]
  cases findWeak core sym with
  | error e => rfl
  | ok weak => rfl

theorem findSymdefImpl_of_error (core : ElfCore w) {e : Halt} (hlocal : sym.sym.isLocal = false)
    (h : firstProvider scope info = .error e) :
    findSymdefImpl core scope sym info = .error e := by
  unfold findSymdefImpl
  rw [if_neg (by simp [hlocal]), searchWith_tryLibrary, h]
  rfl

theorem findSymdef_eq {r : Nat} (hsym : core.symtab.symbolIdx r = .ok (sym, info)) :
    findSymdef core scope r = findSymdefImpl core scope sym info := by
  unfold findSymdef
  rw [hsym]
  rfl

theorem firstProvider_eq_none_iff :
    firstProvider scope info = .ok none ↔
      ∀ lib ∈ scope, lib.symtab.provided info = .ok none := by
  unfold firstProvider
  rw [findFirst_eq_none_iff]
  constructor
  · intro h lib hlib
    obtain ⟨i, hi⟩ := List.mem_iff_getElem?.mp hlib
    have hentry := h (lib, i) (List.mem_zipIdx_iff_getElem?.mpr hi)
    obtain ⟨found, hfound, hmap⟩ := Exec.except_map_ok_iff.mp hentry
    cases found with
    | none => exact hfound
    | some ref => cases hmap
  · rintro h ⟨lib, i⟩ hentry
    rw [h lib (List.fst_mem_of_mem_zipIdx hentry)]
    rfl

theorem firstProvider_eq_some_iff {lib : LoadedCore w} {i : Nat} {ref : SymRef w} :
    firstProvider scope info = .ok (some (lib, i, ref)) ↔
      ∃ before after, scope = before ++ lib :: after ∧ i = before.length ∧
        lib.symtab.provided info = .ok (some ref) ∧
        ∀ lib' ∈ before, lib'.symtab.provided info = .ok none := by
  unfold firstProvider
  rw [findFirst_eq_some_iff]
  constructor
  · rintro ⟨xs, entry, ys, hsplit, hbefore, hentry⟩
    obtain ⟨before, rest, rfl, rfl, hrest⟩ := List.zipIdx_eq_append_iff.mp hsplit
    obtain ⟨a, after, rfl, rfl, rfl⟩ := List.zipIdx_eq_cons_iff.mp hrest.symm
    obtain ⟨found, hfound, hmap⟩ := Exec.except_map_ok_iff.mp hentry
    cases found with
    | none => cases hmap
    | some ref =>
        cases hmap
        refine ⟨before, after, rfl, Nat.zero_add _, hfound, ?_⟩
        exact firstProvider_eq_none_iff.mp (findFirst_eq_none_iff.mpr hbefore)
  · rintro ⟨before, after, rfl, rfl, hlib, hbefore⟩
    refine ⟨before.zipIdx, (lib, before.length), after.zipIdx (before.length + 1), ?_, ?_, ?_⟩
    · rw [List.zipIdx_append, List.zipIdx_cons, Nat.zero_add]
    · exact findFirst_eq_none_iff.mp (firstProvider_eq_none_iff.mpr hbefore)
    · rw [hlib]
      rfl

end ElfLoader
