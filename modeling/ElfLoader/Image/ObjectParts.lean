import ElfLoader.Image.Object
import ElfLoader.Relocation.StaticDeps

/-! # What an object is built of

Symbols and constructors of an object. The loop over the symbols takes every
index above 0 for a section, also those that the format reserves; the loop over
the sections keeps the last init array.
-/

namespace ElfLoader

open Exec ByteMemory

variable {K : Type}

def shnLoreserve : UInt16 := 0xff00
def shnAbs : UInt16 := 0xfff1
def shnCommon : UInt16 := 0xfff2

namespace ObjectBuilder

section Loop

variable (base : BitVec 64) (shdrs : List (ElfShdr 64))

/-- The address that the loop takes for the start of the symbol's section, relative
to the base. -/
def sectionOffset (symbol : ElfSymbol 64) : BitVec 64 :=
  if symbol.stType = sttFile then 0
  else ((shdrs[symbol.stShndx.toNat]?.map ElfShdr.shAddr).getD 0) - base

/-- The index of the symbol is one that the loop can look up, and an absolute
symbol is not moved. -/
structure Fits (symbol : ElfSymbol 64) : Prop where
  index : symbol.stType ≠ sttFile → symbol.stShndx ≠ shnUndef →
    symbol.stShndx.toNat < shdrs.length
  absolute : symbol.stShndx = shnAbs → base + sectionOffset base shdrs symbol = 0

variable {base shdrs} {symbol : ElfSymbol 64}

theorem rebaseSymbol_of_skipped (h : symbol.stType = sttFile ∨ symbol.stShndx = shnUndef) :
    rebaseSymbol base shdrs symbol = .ok symbol := if_pos h

theorem rebaseSymbol_of_section {shdr : ElfShdr 64}
    (h : ¬ (symbol.stType = sttFile ∨ symbol.stShndx = shnUndef))
    (hshdr : shdrs[symbol.stShndx.toNat]? = some shdr) :
    rebaseSymbol base shdrs symbol =
      .ok (symbol.setValue (shdr.shAddr - base + symbol.stValue)) := by
  unfold rebaseSymbol sectionAt
  rw [if_neg h, hshdr]
  rfl

theorem rebaseSymbol_of_none (h : ¬ (symbol.stType = sttFile ∨ symbol.stShndx = shnUndef))
    (hnone : shdrs[symbol.stShndx.toNat]? = none) :
    rebaseSymbol base shdrs symbol = .error (.panic "index out of bounds") := by
  unfold rebaseSymbol sectionAt
  rw [if_neg h, hnone]
  rfl

end Loop

section Symbols

variable [CustomHasher]
variable (core : ElfCore 64) (shdrs : List (ElfShdr 64))

/-- What should become of a symbol of the object `core`. -/
structure Rebased (symbol symbol' : ElfSymbol 64) : Prop where
  ordinary : ∀ shdr, shdrs[symbol.stShndx.toNat]? = some shdr → symbol.stShndx < shnLoreserve →
    symbol.stShndx ≠ shnUndef → symbol.stType ≠ sttFile →
      symbol' = symbol.setValue (shdr.shAddr - core.base + symbol.stValue)
  untouched : symbol.stShndx = shnUndef ∨ symbol.stType = sttFile → symbol' = symbol
  absolute : symbol.stShndx = shnAbs → ∀ i,
    SymDef.convert id { sym := some ⟨i, symbol'⟩, lib := core } = symbol.stValue

/-- The loop over the symbols ends, and every symbol became what it should. -/
def SymbolsRebased (m : Bytes 64) (slice : Slice 64) : Prop :=
  ∃ symbols', rebaseSymbols m core.base shdrs slice = .ok symbols' ∧
    List.Forall₂ (Rebased core shdrs) (symbolsOf m slice) symbols'

variable {core shdrs} {m : Bytes 64} {slice : Slice 64} {symbol : ElfSymbol 64}

theorem convert_eq_value_iff (value d : BitVec 64) (i : Nat)
    (hvalue : value = d + symbol.stValue) :
    SymDef.convert id { sym := some ⟨i, symbol.setValue value⟩, lib := core } =
      symbol.stValue ↔ core.base + d = 0 := by
  have hconvert : SymDef.convert id { sym := some ⟨i, symbol.setValue value⟩, lib := core } =
      core.base + d + symbol.stValue := by
    rw [BitVec.add_assoc, ← hvalue]
    unfold SymDef.convert
    dsimp only
    split_ifs
    · rfl
    · rfl
  rw [hconvert]
  exact add_eq_right

/-- One iteration makes of a symbol what it should exactly when it fits. -/
theorem rebaseSymbol_rebased_iff :
    (∃ symbol', rebaseSymbol core.base shdrs symbol = .ok symbol' ∧
        Rebased core shdrs symbol symbol') ↔ Fits core.base shdrs symbol := by
  by_cases hskip : symbol.stType = sttFile ∨ symbol.stShndx = shnUndef
  · rw [rebaseSymbol_of_skipped hskip]
    have hfile : symbol.stShndx = shnAbs → symbol.stType = sttFile := fun habs =>
      hskip.resolve_right fun hundef => absurd (habs.symm.trans hundef) (by decide)
    have hoffset : symbol.stShndx = shnAbs → sectionOffset core.base shdrs symbol = 0 :=
      fun habs => if_pos (hfile habs)
    have hconvert : ∀ i, SymDef.convert id { sym := some ⟨i, symbol⟩, lib := core } =
        symbol.stValue ↔ core.base + 0 = 0 :=
      fun i => convert_eq_value_iff symbol.stValue 0 i (by simp)
    constructor
    · rintro ⟨symbol', heq, hrebased⟩
      cases heq
      refine ⟨fun hty hundef => absurd hskip (not_or.mpr ⟨hty, hundef⟩), fun habs => ?_⟩
      rw [hoffset habs]
      exact (hconvert 0).mp (hrebased.absolute habs 0)
    · rintro ⟨-, habs⟩
      refine ⟨symbol, rfl, fun _ _ _ hundef hty => ?_, fun _ => rfl, fun hndx i => ?_⟩
      · exact absurd hskip (not_or.mpr ⟨hty, hundef⟩)
      · have hzero := habs hndx
        rw [hoffset hndx] at hzero
        exact (hconvert i).mpr hzero
  · obtain ⟨hfile, hundef⟩ := not_or.mp hskip
    cases hshdr : shdrs[symbol.stShndx.toNat]? with
    | none =>
        rw [rebaseSymbol_of_none hskip hshdr]
        refine iff_of_false (by rintro ⟨symbol', heq, -⟩; cases heq) fun hfits => ?_
        exact absurd (hfits.index hfile hundef)
          (Nat.not_lt.mpr (List.getElem?_eq_none_iff.mp hshdr))
    | some shdr =>
        have hoffset : sectionOffset core.base shdrs symbol = shdr.shAddr - core.base := by
          rw [sectionOffset, if_neg hfile, hshdr]
          rfl
        rw [rebaseSymbol_of_section hskip hshdr]
        constructor
        · rintro ⟨symbol', heq, hrebased⟩
          cases heq
          refine ⟨fun _ _ => (List.getElem?_eq_some_iff.mp hshdr).1, fun habs => ?_⟩
          rw [hoffset]
          exact (convert_eq_value_iff _ _ 0 rfl).mp (hrebased.absolute habs 0)
        · rintro ⟨-, habs⟩
          refine ⟨_, rfl, fun shdr' hshdr' _ _ _ => ?_, fun h => absurd h.symm hskip, ?_⟩
          · rw [hshdr] at hshdr'
            cases hshdr'
            rfl
          · intro hndx i
            have hzero := habs hndx
            rw [hoffset] at hzero
            exact (convert_eq_value_iff _ _ i rfl).mpr hzero

/-- The symbols of an object are rebased as they should exactly when every index
the loop looks up is that of a section and no absolute symbol is moved. -/
theorem symbols_rebased_iff (core : ElfCore 64) (shdrs : List (ElfShdr 64)) (m : Bytes 64)
    (slice : Slice 64) :
    SymbolsRebased core shdrs m slice ↔
      ∀ symbol ∈ symbolsOf m slice, Fits core.base shdrs symbol := by
  unfold SymbolsRebased rebaseSymbols
  rw [except_mapM_forall₂_iff]
  exact forall₂_congr fun symbol _ => rebaseSymbol_rebased_iff

end Symbols

/-! ## The init array -/

section Arrays

def isInitArray (shdr : ElfShdr 64) : Bool := shdr.shType = shtInitArray

/-- The slice that the loop makes of an init array. -/
def arraySlice (shdr : ElfShdr 64) : Slice 64 where
  ptr := shdr.shAddr
  count := shdr.shSize.toNat / shdr.shEntsize.toNat

/-- The words of an init array. -/
def arrayWords (shdr : ElfShdr 64) : List (BitVec 64) :=
  Slice.slots { ptr := shdr.shAddr, count := shdr.shSize.toNat / 8 }

theorem contentMut_ok_iff {shdr : ElfShdr 64} {slice : Slice 64} :
    shdr.contentMut = .ok slice ↔ shdr.shEntsize ≠ 0 ∧ slice = arraySlice shdr := by
  unfold ElfShdr.contentMut
  by_cases hzero : shdr.shEntsize = 0
  · rw [if_pos hzero]
    exact iff_of_false nofun fun h => h.1 hzero
  · rw [if_neg hzero, Except.ok.injEq, and_iff_right hzero]
    exact eq_comm

variable [CustomHasher]
variable {H : TableBuilder} {m : Bytes 64} {base : BitVec 64} {shdrs : List (ElfShdr 64)}
variable {parts parts' : Parts} {shdr : ElfShdr 64}

/-- Only an init array changes the slice, and it overwrites it. -/
theorem storeSection_initArray (h : storeSection H m base shdrs parts shdr = .ok parts') :
    (isInitArray shdr = true → shdr.shEntsize ≠ 0) ∧
      parts'.initArray =
        if isInitArray shdr then some (arraySlice shdr) else parts.initArray := by
  unfold storeSection at h
  unfold isInitArray
  split_ifs at h with hsymtab hrel harray
  · obtain ⟨symtab, -, hret⟩ := Exec.except_bind_ok_iff.mp h
    cases hret
    have hne : shdr.shType ≠ shtInitArray := by
      rw [hsymtab]
      decide
    simp [hne]
  · obtain ⟨rels, -, hret⟩ := Exec.except_bind_ok_iff.mp h
    cases hret
    have hne : shdr.shType ≠ shtInitArray := by
      rcases hrel with hrel | hrel
      all_goals
        rw [hrel]
        decide
    simp [hne]
  · obtain ⟨slice, hslice, hret⟩ := Exec.except_bind_ok_iff.mp h
    cases hret
    obtain ⟨hne, rfl⟩ := contentMut_ok_iff.mp hslice
    refine ⟨fun _ => hne, ?_⟩
    rw [if_pos (by simpa using harray)]
  · cases h
    simp [harray]

/-- Only a symbol table changes the table. -/
theorem storeSection_symtab {symtab : SymbolTable 64}
    (h : storeSection H m base shdrs parts shdr = .ok parts')
    (hsymtab : parts'.symtab = some symtab) :
    parts.symtab = some symtab ∨
      shdr.shType = shtSymtab ∧ readSymtab H m base shdrs shdr = .ok symtab := by
  unfold storeSection at h
  split_ifs at h with hty
  · obtain ⟨read, hread, hret⟩ := Exec.except_bind_ok_iff.mp h
    cases hret
    cases hsymtab
    exact .inr ⟨hty, hread⟩
  · obtain ⟨rels, -, hret⟩ := Exec.except_bind_ok_iff.mp h
    cases hret
    exact .inl hsymtab
  · obtain ⟨slice, -, hret⟩ := Exec.except_bind_ok_iff.mp h
    cases hret
    exact .inl hsymtab
  · cases h
    exact .inl hsymtab

theorem storeSections_symtab {visited : List (ElfShdr 64)} {symtab : SymbolTable 64}
    (h : visited.foldlM (storeSection H m base shdrs) parts = .ok parts')
    (hsymtab : parts'.symtab = some symtab) :
    parts.symtab = some symtab ∨ ∃ shdr ∈ visited, shdr.shType = shtSymtab ∧
      readSymtab H m base shdrs shdr = .ok symtab := by
  induction visited generalizing parts with
  | nil =>
      cases h
      exact .inl hsymtab
  | cons shdr visited ih =>
      rw [List.foldlM_cons] at h
      obtain ⟨parts₁, hstep, hrest⟩ := Exec.except_bind_ok_iff.mp h
      rcases ih hrest with hfirst | ⟨shdr', hmem, hread⟩
      · rcases storeSection_symtab hstep hfirst with hbefore | hread
        · exact .inl hbefore
        · exact .inr ⟨shdr, List.mem_cons_self, hread⟩
      · exact .inr ⟨shdr', List.mem_cons_of_mem _ hmem, hread⟩

theorem storeSections_initArray {visited : List (ElfShdr 64)}
    (h : visited.foldlM (storeSection H m base shdrs) parts = .ok parts') :
    (∀ shdr ∈ visited, isInitArray shdr = true → shdr.shEntsize ≠ 0) ∧
      parts'.initArray =
        ((visited.filter isInitArray).getLast?.map arraySlice).or parts.initArray := by
  induction visited generalizing parts with
  | nil =>
      cases h
      exact ⟨nofun, rfl⟩
  | cons shdr visited ih =>
      rw [List.foldlM_cons] at h
      obtain ⟨parts₁, hstep, hrest⟩ := Exec.except_bind_ok_iff.mp h
      obtain ⟨hentsize, harray⟩ := storeSection_initArray hstep
      obtain ⟨hall, hlast⟩ := ih hrest
      refine ⟨List.forall_mem_cons.mpr ⟨hentsize, hall⟩, ?_⟩
      rw [hlast, harray]
      by_cases hinit : isInitArray shdr = true
      · rw [if_pos hinit, List.filter_cons_of_pos hinit, List.getLast?_cons]
        cases (visited.filter isInitArray).getLast? with
        | none => rfl
        | some last => rfl
      · rw [if_neg hinit, List.filter_cons_of_neg hinit]

/-- The symbols of an object are those of one of its symbol tables, after the loop. -/
theorem new_symtab {name : Name} {loaded : LoadedSections 64}
    {mprotect : EStateM Halt (OsState 64 K) Unit} {builder : ObjectBuilder K}
    (h : ObjectBuilder.new H m name loaded mprotect = .ok builder) :
    ∃ shdr ∈ rebaseShdrs loaded, shdr.shType = shtSymtab ∧ ∃ slice, shdr.contentMut = .ok slice ∧
      rebaseSymbols m loaded.space.base (rebaseShdrs loaded) slice = .ok builder.symtab.symtab := by
  unfold ObjectBuilder.new at h
  obtain ⟨parts, hloop, hrest⟩ := Exec.except_bind_ok_iff.mp h
  cases hsymtab : parts.symtab with
  | none =>
      rw [hsymtab] at hrest
      cases hrest
  | some symtab =>
      rw [hsymtab] at hrest
      cases hrest
      rcases storeSections_symtab hloop hsymtab with hbefore | ⟨shdr, hmem, hty, hread⟩
      · cases hbefore
      · unfold readSymtab at hread
        obtain ⟨slice, hslice, hread⟩ := Exec.except_bind_ok_iff.mp hread
        obtain ⟨symbols', hsymbols, hread⟩ := Exec.except_bind_ok_iff.mp hread
        obtain ⟨strtabShdr, -, hread⟩ := Exec.except_bind_ok_iff.mp hread
        obtain ⟨entries, -, hret⟩ := Exec.except_bind_ok_iff.mp hread
        cases hret
        exact ⟨shdr, hmem, hty, slice, hslice, hsymbols⟩

theorem new_initArray {name : Name} {loaded : LoadedSections 64}
    {mprotect : EStateM Halt (OsState 64 K) Unit} {builder : ObjectBuilder K}
    (h : ObjectBuilder.new H m name loaded mprotect = .ok builder) :
    (∀ shdr ∈ rebaseShdrs loaded, isInitArray shdr = true → shdr.shEntsize ≠ 0) ∧
      builder.initArray =
        ((rebaseShdrs loaded).filter isInitArray).getLast?.map arraySlice := by
  unfold ObjectBuilder.new at h
  obtain ⟨parts, hloop, hrest⟩ := Exec.except_bind_ok_iff.mp h
  obtain ⟨hentsize, harray⟩ := storeSections_initArray hloop
  rw [Option.or_none] at harray
  refine ⟨hentsize, ?_⟩
  cases hsymtab : parts.symtab with
  | none =>
      rw [hsymtab] at hrest
      cases hrest
  | some symtab =>
      rw [hsymtab] at hrest
      cases hrest
      exact harray

end Arrays

end ObjectBuilder

section Constructors

open ObjectBuilder

/-- The default handler of `Loader::new`: the functions it calls, in order. -/
def defaultHandler (func : Option (BitVec 64)) (funcArray : Option (List (BitVec 64))) :
    List (BitVec 64) :=
  func.toList ++ funcArray.getD []

/-- Only the last init array has words, and its `sh_entsize` counts them right. -/
structure OneArray (arrays : List (ElfShdr 64)) : Prop where
  earlier : ∀ shdr ∈ arrays.dropLast, shdr.shSize = 0
  counted : ∀ shdr, arrays.getLast? = some shdr →
    shdr.shSize.toNat / shdr.shEntsize.toNat = shdr.shSize.toNat / 8

theorem arrayWords_head? {shdr : ElfShdr 64} (hwords : shdr.shSize.toNat % 8 = 0)
    (hsize : shdr.shSize ≠ 0) : (arrayWords shdr).head? = some shdr.shAddr := by
  have hpos : shdr.shSize.toNat ≠ 0 := fun h => hsize (BitVec.eq_of_toNat_eq h)
  obtain ⟨n, hn⟩ : ∃ n, shdr.shSize.toNat / 8 = n + 1 := ⟨shdr.shSize.toNat / 8 - 1, by omega⟩
  rw [arrayWords, Slice.slots]
  dsimp only
  rw [hn, List.range_succ_eq_map]
  simp

theorem arrayWords_of_empty {shdr : ElfShdr 64} (hsize : shdr.shSize = 0) :
    arrayWords shdr = [] := by
  rw [arrayWords, hsize]
  rfl

/-- The words of several arrays begin with the address of one that is not empty. -/
theorem head_of_arrays {arrays : List (ElfShdr 64)}
    (hwords : ∀ shdr ∈ arrays, shdr.shSize.toNat % 8 = 0) {a : BitVec 64} {as : List (BitVec 64)}
    (h : arrays.flatMap arrayWords = a :: as) :
    ∃ shdr ∈ arrays, shdr.shSize ≠ 0 ∧ a = shdr.shAddr := by
  induction arrays with
  | nil => cases h
  | cons shdr arrays ih =>
      rw [List.flatMap_cons] at h
      by_cases hsize : shdr.shSize = 0
      · rw [arrayWords_of_empty hsize, List.nil_append] at h
        obtain ⟨shdr', hmem, hrest⟩ := ih (fun s hs => hwords s (List.mem_cons_of_mem _ hs)) h
        exact ⟨shdr', List.mem_cons_of_mem _ hmem, hrest⟩
      · have hhead := arrayWords_head? (hwords shdr List.mem_cons_self) hsize
        have ha : (arrayWords shdr ++ arrays.flatMap arrayWords).head? = some shdr.shAddr := by
          rw [List.head?_append, hhead]
          rfl
        rw [h] at ha
        exact ⟨shdr, List.mem_cons_self, hsize, Option.some.inj ha⟩

theorem flatMap_arrayWords_eq_nil {arrays : List (ElfShdr 64)}
    (hwords : ∀ shdr ∈ arrays, shdr.shSize.toNat % 8 = 0) :
    arrays.flatMap arrayWords = [] ↔ ∀ shdr ∈ arrays, shdr.shSize = 0 := by
  rw [List.flatMap_eq_nil_iff]
  refine forall₂_congr fun shdr hmem => ⟨fun hnil => ?_, arrayWords_of_empty⟩
  by_contra hsize
  have hhead := arrayWords_head? (hwords shdr hmem) hsize
  rw [hnil] at hhead
  cases hhead

/-- The slice of the last array has all words exactly when it is the only array. -/
theorem slots_eq_iff {arrays : List (ElfShdr 64)}
    (hwords : ∀ shdr ∈ arrays, shdr.shSize.toNat % 8 = 0)
    (hplaced : arrays.Pairwise fun a b => a.shSize ≠ 0 → b.shSize ≠ 0 → a.shAddr ≠ b.shAddr) :
    ((arrays.getLast?.map arraySlice).map Slice.slots).getD [] = arrays.flatMap arrayWords ↔
      OneArray arrays := by
  cases hlast : arrays.getLast? with
  | none =>
      have hnil : arrays = [] := List.getLast?_eq_none_iff.mp hlast
      subst hnil
      exact iff_of_true rfl ⟨nofun, nofun⟩
  | some last =>
      obtain ⟨earlier, rfl⟩ : ∃ earlier, arrays = earlier ++ [last] :=
        List.getLast?_eq_some_iff.mp hlast
      rw [List.flatMap_append, List.flatMap_singleton]
      change (arraySlice last).slots = _ ↔ _
      have hearlier : ∀ shdr ∈ earlier, shdr.shSize.toNat % 8 = 0 :=
        fun shdr hmem => hwords shdr (List.mem_append_left _ hmem)
      constructor
      · intro heq
        -- the first word belongs to the last array, so no earlier array has one
        have hempty : earlier.flatMap arrayWords = [] := by
          cases hfirst : earlier.flatMap arrayWords with
          | nil => rfl
          | cons a as =>
              exfalso
              obtain ⟨shdr, hmem, hsize, rfl⟩ := head_of_arrays hearlier hfirst
              rw [hfirst] at heq
              have hsome : (arraySlice last).slots.head? = some shdr.shAddr := by
                rw [heq]
                rfl
              have haddr : last.shSize ≠ 0 ∧ last.shAddr = shdr.shAddr := by
                unfold Slice.slots arraySlice at hsome
                dsimp only at hsome
                cases hcount : last.shSize.toNat / last.shEntsize.toNat with
                | zero =>
                    rw [hcount] at hsome
                    cases hsome
                | succ n =>
                    rw [hcount, List.range_succ_eq_map] at hsome
                    refine ⟨fun hzero => ?_, by simpa using hsome⟩
                    rw [hzero] at hcount
                    simp at hcount
              exact (List.pairwise_append.mp hplaced).2.2 shdr hmem last List.mem_cons_self hsize
                haddr.1 haddr.2.symm
        refine ⟨?_, fun shdr hshdr => ?_⟩
        · rw [List.dropLast_concat]
          exact (flatMap_arrayWords_eq_nil hearlier).mp hempty
        · rw [hlast] at hshdr
          cases hshdr
          rw [hempty, List.nil_append] at heq
          have hlen := congrArg List.length heq
          simpa [arrayWords, Slice.slots, arraySlice] using hlen
      · rintro ⟨hzero, hcount⟩
        rw [List.dropLast_concat] at hzero
        rw [(flatMap_arrayWords_eq_nil hearlier).mpr hzero, List.nil_append, arrayWords,
          ← hcount last hlast]
        rfl

variable [CustomHasher]

/-- The words whose pointers the default handler is given. -/
def RawObject.calledSlots (object : RawObject K) : List (BitVec 64) :=
  (object.initArray.map Slice.slots).getD []

/-- After all relocations and the final `mprotect` the pointers in the init arrays
are called, each once, and nothing else. -/
structure ConstructorsCalled (arrays : List (ElfShdr 64)) (object : RawObject K)
    (s' : StaticState K) : Prop where
  called : ∃ es fns, s'.trace = es ++ [.initCalled fns] ∧ (∀ e ∈ es, e.rel?.isSome = true) ∧
    defaultHandler none fns = object.calledSlots.map (readWord s'.os.mem)
  slots : object.calledSlots = arrays.flatMap arrayWords

variable {H : TableBuilder} {m : Bytes 64} {name : Name} {loaded : LoadedSections 64}
variable {mprotect : EStateM Halt (OsState 64 K) Unit} {builder : ObjectBuilder K}

/-- An object with an init array whose `sh_entsize` is 0 cannot be loaded. -/
theorem new_of_entsize_zero {shdr : ElfShdr 64} (hmem : shdr ∈ rebaseShdrs loaded)
    (harray : isInitArray shdr = true) (hzero : shdr.shEntsize = 0) :
    ObjectBuilder.new H m name loaded mprotect ≠ .ok builder :=
  fun hnew => (new_initArray hnew).1 shdr hmem harray hzero

/-- The constructors of an object that was relocated have run, as they should,
exactly when its last init array is the only one with words and is counted right. -/
theorem constructors_called_iff (id : Nat) {ifunc : BitVec 64 → BitVec 64}
    {scope : List (LoadedCore 64)} {preFind postFind : SymbolLookup 64} {os : OsState 64 K}
    {core : LoadedCore 64} {s' : StaticState K}
    (hnew : ObjectBuilder.new H m name loaded mprotect = .ok builder)
    (hrun : (builder.build id).run ifunc scope preFind postFind os = .ok core s')
    (hwords : ∀ shdr ∈ (rebaseShdrs loaded).filter isInitArray, shdr.shSize.toNat % 8 = 0)
    (hplaced : ((rebaseShdrs loaded).filter isInitArray).Pairwise fun a b =>
      a.shSize ≠ 0 → b.shSize ≠ 0 → a.shAddr ≠ b.shAddr) :
    ConstructorsCalled ((rebaseShdrs loaded).filter isInitArray) (builder.build id) s' ↔
      OneArray ((rebaseShdrs loaded).filter isInitArray) := by
  have harray : (builder.build id).initArray =
      ((rebaseShdrs loaded).filter isInitArray).getLast?.map arraySlice := (new_initArray hnew).2
  rw [← slots_eq_iff hwords hplaced, ← harray]
  refine ⟨fun h => h.slots, fun hslots => ⟨?_, hslots⟩⟩
  obtain ⟨-, s₁, hinv, htrace⟩ := RawObject.run_trace hrun
  refine ⟨s₁.trace, _, htrace, fun e he => ?_, ?_⟩
  · obtain ⟨rel, -, hrel⟩ := hinv.about e he
    rw [hrel]
    rfl
  · unfold defaultHandler RawObject.calledSlots
    cases (builder.build id).initArray with
    | none => rfl
    | some slice => rfl

end Constructors

section Sample

open ObjectBuilder

attribute [local instance] constantHasher

def plainBuilder : TableBuilder := .plain

def objectShdr (shType : UInt32) (shAddr shSize shEntsize : BitVec 64) (shLink : UInt32) :
    ElfShdr 64 :=
  { (default : ElfShdr 64) with shType, shAddr, shSize, shEntsize, shLink }

/-- An object with a symbol table at `0x100` and two init arrays, the first of the
given size. -/
def twoArrays (size : BitVec 64) : LoadedSections 64 where
  shdrs := [objectShdr 0 0 0 0 0, objectShdr shtSymtab 0x100 48 24 2, objectShdr 3 0x200 1 0 0,
    objectShdr shtInitArray 0x300 size 8 0, objectShdr shtInitArray 0x308 8 8 0,
    objectShdr shtNobits 0x400 0 8 0, objectShdr shtNobits 0x400 0 16 0]
  space := { memory := 0x10000, offset := 0, len := 0x1000 }
  segments := []
  gotBase := 0x400
  pltBase := 0x400

/-- The arrays hold one pointer each; the second symbol has the given section. -/
def arrayMemory (shndx : UInt8 × UInt8) : Bytes 64 := fun a =>
  if a = 0x10300 then 0x11 else if a = 0x10308 then 0x22
  else if a = 0x1011e then shndx.1 else if a = 0x1011f then shndx.2
  else if a = 0x10120 then 0x40 else 0

/-- An absolute symbol makes the load of an object panic. -/
theorem absolute_symbol_out_of_bounds :
    (symbolsOf (arrayMemory (0xf1, 0xff)) ⟨0x10100, 2⟩)[1]? = some ⟨0, 0x40, 0, 0, 0, shnAbs⟩ ∧
      ObjectBuilder.new (K := Unit) plainBuilder (arrayMemory (0xf1, 0xff)) [111] (twoArrays 8)
        (pure ()) = .error (.panic "index out of bounds") ∧
      ¬ SymbolsRebased (sampleCore 0 stbGlobal 0 0) (rebaseShdrs (twoArrays 8))
        (arrayMemory (0xf1, 0xff)) ⟨0x10100, 2⟩ := by
  have hsymbol : (symbolsOf (arrayMemory (0xf1, 0xff)) ⟨0x10100, 2⟩)[1]? =
      some ⟨0, 0x40, 0, 0, 0, shnAbs⟩ := by decide
  refine ⟨hsymbol, rfl, fun hrebased => ?_⟩
  rw [SymbolsRebased] at hrebased
  obtain ⟨symbols', hloop, -⟩ := hrebased
  have hpanic : rebaseSymbols (arrayMemory (0xf1, 0xff)) (sampleCore 0 stbGlobal 0 0).base
      (rebaseShdrs (twoArrays 8)) ⟨0x10100, 2⟩ = .error (.panic "index out of bounds") := rfl
  rw [hpanic] at hloop
  cases hloop

/-- The pointer of the first array is never called. -/
theorem earlier_array_not_called :
    ∃ (builder : ObjectBuilder Unit) (core : LoadedCore 64) (s' : StaticState Unit),
      ObjectBuilder.new plainBuilder (arrayMemory (0, 0)) [111] (twoArrays 8) (pure ()) =
          .ok builder ∧
        (builder.build 0).run id [] (fun _ => none) (fun _ => none) ⟨arrayMemory (0, 0), ()⟩ =
          .ok core s' ∧
        s'.trace = [.initCalled (some [0x22])] ∧ readWord s'.os.mem 0x10300 = 0x11 ∧
        ¬ ConstructorsCalled ((rebaseShdrs (twoArrays 8)).filter isInitArray) (builder.build 0)
          s' := by
  refine ⟨_, _, _, rfl, rfl, rfl, by decide, fun hcalled => ?_⟩
  have hslots := congrArg List.length hcalled.slots
  revert hslots
  decide

theorem only_array_called :
    ∃ (builder : ObjectBuilder Unit) (core : LoadedCore 64) (s' : StaticState Unit),
      ObjectBuilder.new plainBuilder (arrayMemory (0, 0)) [111] (twoArrays 0) (pure ()) =
          .ok builder ∧
        (builder.build 0).run id [] (fun _ => none) (fun _ => none) ⟨arrayMemory (0, 0), ()⟩ =
          .ok core s' ∧
        ConstructorsCalled ((rebaseShdrs (twoArrays 0)).filter isInitArray) (builder.build 0)
          s' := by
  have hrun : ∃ (builder : ObjectBuilder Unit) (core : LoadedCore 64) (s' : StaticState Unit),
      ObjectBuilder.new plainBuilder (arrayMemory (0, 0)) [111] (twoArrays 0) (pure ()) =
          .ok builder ∧
        (builder.build 0).run id [] (fun _ => none) (fun _ => none) ⟨arrayMemory (0, 0), ()⟩ =
          .ok core s' := ⟨_, _, _, rfl, rfl⟩
  obtain ⟨builder, core, s', hnew, hrun⟩ := hrun
  refine ⟨builder, core, s', hnew, hrun,
    (constructors_called_iff 0 hnew hrun (by decide) (by decide)).mpr
      ⟨by decide, fun shdr hlast => ?_⟩⟩
  cases hlast
  rfl

end Sample

end ElfLoader
