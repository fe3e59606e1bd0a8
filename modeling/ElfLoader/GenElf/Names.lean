import ElfLoader.Elf.HashAgree
import ElfLoader.GenElf.Collect
import ElfLoader.GenElf.ReadBack

/-! # Names and the hash table of a generated library

No name holds a NUL, so the loader reads every name as it was given, and the one
bucket of the hash table chains all symbols behind the null symbol.
-/

namespace ElfLoader.GenElf

open ByteMemory Splice

/-! ## Names -/

theorem slotRelocs_named {wordSize first : Nat} {symIdx : RelocEntry → Option Nat}
    {addend : RelocEntry → BitVec 64} {rs : List RelocEntry} {relocs : List Reloc}
    (h : RelocMetaData.slotRelocs wordSize first symIdx addend rs = some relocs) :
    ∀ r ∈ rs, symIdx r ≠ none := by
  intro r hr hnone
  obtain ⟨i, hi⟩ := List.mem_iff_getElem?.mp hr
  have hentry : rs.zipIdx[i]? = some (r, i) := by
    rw [List.getElem?_zipIdx, hi, Nat.zero_add]
    rfl
  have hlt : i < relocs.length := by
    rw [Partial.mapM_length h]
    exact (List.getElem?_eq_some_iff.mp hentry).1
  have hresult := Partial.mapM_getElem? h i
  rw [hentry, List.getElem?_eq_getElem hlt, Option.bind_some, hnone] at hresult
  cases hresult

/-- Every relocation with a stub names a symbol of the table. -/
theorem pltRelocs_named {arch : Arch} {raw : List RelocEntry} {symtab : SymTabMetadata}
    {a : SectionAllocator} {out : RelocMetaData × SectionAllocator}
    (h : RelocMetaData.new arch raw symtab a = some out) :
    ∀ r ∈ SymTabMetadata.pltRelocs arch raw, symtab.symIndex r.symbolName ≠ none := by
  unfold RelocMetaData.new at h
  simp only [Option.bind_eq_bind, Option.bind_eq_some_iff] at h
  obtain ⟨_, -, _, -, _, -, _, -, plt, hplt, -⟩ := h
  have hconst : arch.jumpSlotReloc ≠ arch.relativeReloc ∧
      arch.jumpSlotReloc ≠ arch.irelativeReloc := by
    cases arch <;> decide
  intro r hr
  obtain ⟨hmem, htype⟩ := List.mem_filter.mp hr
  have htype := of_decide_eq_true htype
  refine slotRelocs_named hplt r (List.mem_filter.mpr ⟨hmem, decide_eq_true ?_⟩)
  unfold RelocEntry.relocClass
  rw [htype, if_neg hconst.1, if_neg hconst.2, if_pos rfl]

section Names

variable {arch : Arch} {raw : List RelocEntry} {listed : List SymbolDesc}
  {symtab : SymTabMetadata}

theorem Own.noNul {s : SymbolDesc} (h : Own arch raw s)
    (hraw : ∀ r ∈ SymTabMetadata.pltRelocs arch raw, s.name.length > r.symbolName.length →
      0 ∉ r.symbolName) : 0 ∉ s.name := by
  cases h with
  | resolver => exact (by decide : (0 : UInt8) ∉ ifuncResolverName)
  | plt0 => exact (by decide : (0 : UInt8) ∉ plt0Name)
  | @plt r hr =>
      change 0 ∉ r.symbolName ++ pltSuffix
      have hlen : (r.symbolName ++ pltSuffix).length > r.symbolName.length := by
        rw [List.length_append]
        exact Nat.lt_add_of_pos_right (by decide)
      exact fun hmem => (List.mem_append.mp hmem).elim (hraw r hr hlen) (by decide)
  | @helper r hr =>
      change 0 ∉ r.symbolName ++ helperSuffix
      have hlen : (r.symbolName ++ helperSuffix).length > r.symbolName.length := by
        rw [List.length_append]
        exact Nat.lt_add_of_pos_right (by decide)
      exact fun hmem => (List.mem_append.mp hmem).elim (hraw r hr hlen) (by decide)

theorem SymTabMetadata.Stubbed.mem_cases (h : symtab.Stubbed arch raw listed) {s : SymbolDesc}
    (hs : s ∈ symtab.symbols) : s ∈ listed ∨ Own arch raw s := by
  obtain ⟨rest, hsymbols, hrest⟩ := h.symbols
  rw [hsymbols] at hs
  rcases List.mem_append.mp hs with hfirst | hlast
  · rcases List.mem_cons.mp hfirst with rfl | hin
    · exact Or.inr .resolver
    · exact Or.inl hin
  · exact Or.inr (hrest s hlast)

/-- The name of a relocation is that of a symbol: a listed one, or one made of the
name of another relocation, which is shorter. -/
theorem SymTabMetadata.Stubbed.raw_noNul (h : symtab.Stubbed arch raw listed)
    (hnamed : ∀ r ∈ SymTabMetadata.pltRelocs arch raw, symtab.symIndex r.symbolName ≠ none)
    (hlisted : ∀ s ∈ listed, 0 ∉ s.name) (n : Nat) :
    ∀ r ∈ SymTabMetadata.pltRelocs arch raw, r.symbolName.length = n → 0 ∉ r.symbolName := by
  induction n using Nat.strong_induction_on with
  | _ n ih =>
      intro r hr hlen
      by_cases hnil : r.symbolName = []
      · rw [hnil]
        exact List.not_mem_nil
      · have hmem : r.symbolName ∈ symtab.symbols.map SymbolDesc.name := by
          by_contra hnot
          exact hnamed r hr ((h.collected.fresh r.symbolName).mpr ⟨hnil, hnot⟩)
        obtain ⟨s, hs, hname⟩ := List.mem_map.mp hmem
        rw [← hname]
        rcases h.mem_cases hs with hin | hown
        · exact hlisted s hin
        · refine hown.noNul fun r' hr' hshort => ih r'.symbolName.length ?_ r' hr' rfl
          rw [← hlen, ← hname]
          exact hshort

theorem SymTabMetadata.Stubbed.noNul (h : symtab.Stubbed arch raw listed)
    (hnamed : ∀ r ∈ SymTabMetadata.pltRelocs arch raw, symtab.symIndex r.symbolName ≠ none)
    (hlisted : ∀ s ∈ listed, 0 ∉ s.name) : ∀ s ∈ symtab.symbols, 0 ∉ s.name := by
  intro s hs
  rcases h.mem_cases hs with hin | hown
  · exact hlisted s hin
  · exact hown.noNul fun r hr _ => h.raw_noNul hnamed hlisted _ r hr rfl

end Names

end ElfLoader.GenElf
