import ElfLoader.GenElf.Image
import ElfLoader.Relocation.Settled

/-! # Relocating a generated library

No two of the reported relocations patch one place of the file, and the loader patches
where the generator says. So what a library refers to does not depend on the order of
its relocations.
-/

namespace ElfLoader.GenElf

open ByteMemory

/-! ## The target of a generated file -/

theorem Arch.target_types (arch : Arch) :
    arch.target.relRelative = arch.relativeReloc.toNat ∧
      arch.target.relIrelative = arch.irelativeReloc.toNat ∧
      arch.target.relJumpSlot = arch.jumpSlotReloc.toNat ∧
      arch.target.relCopy = arch.copyReloc.toNat := by
  cases arch <;> exact ⟨rfl, rfl, rfl, rfl⟩

theorem Arch.bits_div (arch : Arch) : arch.bits / 8 = arch.wordSize := by
  cases arch <;> rfl

/-- The words of the lazy binding are the first three of the table. -/
theorem Arch.target_reserved (arch : Arch) :
    arch.target.dylibOffset < 3 ∧ arch.target.resolveFunctionOffset < 3 := by
  cases arch <;> decide

/-- The type and the symbol of a relocation fit into `r_info`. -/
def RelocationInfo.FitsInfo (arch : Arch) (info : RelocationInfo) : Prop :=
  info.rType.toNat < 2 ^ relBit arch.bits ∧ info.symIdx < 2 ^ (arch.bits - relBit arch.bits)

instance (arch : Arch) (info : RelocationInfo) : Decidable (info.FitsInfo arch) :=
  inferInstanceAs (Decidable (_ ∧ _))

section Places

variable {w : Nat} {K : Type} [CustomHasher] {proc : Process w K} {image : DynamicImage proc.arch}

theorem items_rels :
    (image.items proc).map (fun x => x.2.rel) = image.relocation.entries.map RelRef.rel := by
  unfold DynamicImage.items DynamicRelocation.entries
  cases image.relocation.relative with
  | rel rels => simp [Function.comp_def]
  | relr words => simp [Function.comp_def]

end Places

/-- Ranges behind one address are apart where their distances are. -/
theorem within_apart {w : Nat} {origin a : BitVec w} {c n c' n' : Nat} (hfit : c + n ≤ 2 ^ w)
    (hfit' : c' + n' ≤ 2 ^ w) (h : c + n ≤ c' ∨ c' + n' ≤ c)
    (ha : Within (origin + BitVec.ofNat w c) n a) :
    ¬ Within (origin + BitVec.ofNat w c') n' a := by
  rw [within_add_iff hfit] at ha
  rw [within_add_iff hfit']
  omega

section File

variable {writer : DylibWriter} {order : HashOrder} {rawRelocs : List RelocEntry}
  {listed : List SymbolDesc} {u : Unplaced} {st : WriteState} {layout header : ElfLayout}
  {phdrs : List ProgramHeader} {file : List UInt8} {a₁ a₂ a₃ : SectionAllocator}

/-- Placing the symbols keeps their sizes. -/
theorem placed_size (hs : Steps writer order u st header a₁ a₂ a₃) (hcol : u.symtab.Collected)
    {idx n : Nat} (hn : u.symtab.getSymSize idx = some n) :
    ∃ sym, st.symtab.dynsym[idx]? = some sym ∧ sym.size = n := by
  obtain ⟨hupdate, -, -⟩ := symtab_spec hs
  unfold SymTabMetadata.getSymSize at hn
  obtain ⟨entry, hentry, rfl⟩ := Option.map_eq_some_iff.mp hn
  cases idx with
  | zero =>
      obtain ⟨placed, -, hsymtab⟩ := updateSymbolValues_spec hupdate
      refine ⟨entry, ?_, rfl⟩
      have hlen := hcol.dynsym
      rw [hsymtab]
      change (u.symtab.dynsym.take 1 ++ placed)[0]? = some entry
      rw [List.getElem?_append_left (by rw [List.length_take]; omega), List.getElem?_take,
        if_pos Nat.zero_lt_one, hentry]
  | succ i =>
      have hlt := (List.getElem?_eq_some_iff.mp hentry).1
      rw [hcol.dynsym] at hlt
      obtain ⟨s, hi⟩ : ∃ s, u.symtab.symbols[i]? = some s :=
        ⟨_, List.getElem?_eq_getElem (by omega)⟩
      obtain ⟨sym, hplace, hget⟩ := hcol.placed hupdate hi
      cases hentry.symm.trans (hcol.entry i _ hi).1
      exact ⟨sym, hget, (SymTabMetadata.placeSymbol_same hplace).2.2⟩

/-! ## Entries and relocations -/

/-- The pass that treats the relocation at a position. -/
def RelocMetaData.partAt (reloc : RelocMetaData) (i : Nat) : Part :=
  if i < reloc.relativeCount then .relative else if i < reloc.pltStart then .dyn else .plt

/-- The class of a relocation says which pass treats it. -/
theorem RelocMetaData.partAt_eq (reloc : RelocMetaData) (i : Nat) :
    reloc.partAt i = match reloc.classAt i with
      | .relative => .relative
      | .plt => .plt
      | .got | .copy | .irelative => .dyn := by
  have hstart : reloc.pltStart = reloc.relativeCount + reloc.gotCount + reloc.copyCount +
      reloc.irelativeCount := rfl
  unfold partAt classAt
  split_ifs <;> first | rfl | omega

theorem passes_getElem? {α : Type} {dyn plt : List α} {n k : Nat} {x : Part × α}
    (hn : n ≤ dyn.length)
    (h : ((dyn.take n).map (fun a => (Part.relative, a)) ++ (dyn.drop n).map (fun a => (.dyn, a)) ++
      plt.map fun a => (.plt, a))[k]? = some x) :
    (dyn ++ plt)[k]? = some x.2 ∧
      x.1 = if k < n then .relative else if k < dyn.length then .dyn else .plt := by
  have hfirst : ((dyn.take n).map fun a => (Part.relative, a)).length = n := by
    rw [List.length_map, List.length_take, Nat.min_eq_left hn]
  have hsecond : ((dyn.drop n).map fun a => (Part.dyn, a)).length = dyn.length - n := by
    rw [List.length_map, List.length_drop]
  by_cases hk : k < n
  · rw [List.append_assoc, List.getElem?_append_left (by omega), List.getElem?_map,
      List.getElem?_take, if_pos hk] at h
    obtain ⟨a, ha, rfl⟩ := Option.map_eq_some_iff.mp h
    rw [List.getElem?_append_left (by omega)]
    exact ⟨ha, (if_pos hk).symm⟩
  · rw [List.append_assoc, List.getElem?_append_right (by omega), hfirst] at h
    rw [if_neg hk]
    by_cases hk' : k < dyn.length
    · rw [List.getElem?_append_left (by omega), List.getElem?_map, List.getElem?_drop,
        Nat.add_sub_cancel' (by omega)] at h
      obtain ⟨a, ha, rfl⟩ := Option.map_eq_some_iff.mp h
      rw [List.getElem?_append_left hk']
      exact ⟨ha, (if_pos hk').symm⟩
    · rw [List.getElem?_append_right (by omega), List.getElem?_map, hsecond] at h
      obtain ⟨a, ha, rfl⟩ := Option.map_eq_some_iff.mp h
      rw [List.getElem?_append_right (by omega), if_neg hk']
      exact ⟨by rw [← ha]; congr 1; omega, rfl⟩

section Copies

variable {K : Type} {proc : Process writer.arch.bits K} {k : Nat}
  {x : Part × RelRef writer.arch.bits}

/-- The loader copies where the generator has made room for a copy. -/
theorem copies_iff (harch : proc.arch = writer.arch.target) {r : Reloc}
    (hrel : x.2.rel = r.info.elfRel writer.arch) (hpart : x.1 = st.reloc.partAt k)
    (hinfo : r.info.FitsInfo writer.arch)
    (hclass : writer.arch.classOf r.rType = st.reloc.classAt k) :
    Copies proc x ↔ st.reloc.classAt k = .copy := by
  have htype : x.2.rel.rType = proc.arch.relCopy ↔ st.reloc.classAt k = .copy := by
    rw [hrel, RelocationInfo.elfRel_rType, Nat.mod_eq_of_lt hinfo.1, harch,
      writer.arch.target_types.2.2.2, BitVec.toNat_inj, ← hclass, Arch.classOf_eq.2.2.2]
    rfl
  unfold Copies
  rw [htype, hpart]
  refine and_iff_right_of_imp fun hcopy => ?_
  have hstart : st.reloc.pltStart = st.reloc.relativeCount + st.reloc.gotCount +
      st.reloc.copyCount + st.reloc.irelativeCount := rfl
  unfold RelocMetaData.classAt at hcopy
  unfold RelocMetaData.partAt
  split_ifs at hcopy
  rw [if_neg (by omega), if_pos (by omega)]

end Copies

section Items

variable [CustomHasher] {K : Type} {proc : Process writer.arch.bits K}
  {image : DynamicImage proc.arch} {segs : ElfSegments writer.arch.bits}
  {m : Bytes writer.arch.bits} {k : Nat} {x : Part × RelRef writer.arch.bits}

theorem item_at (hfinal : FinalRelocs writer.arch st)
    (hreloc : image.relocation = st.dynamicRelocation writer.arch segs)
    (hk : (image.items proc)[k]? = some x) :
    ∃ r, st.reloc.relocs[k]? = some r ∧ x.2.rel = r.info.elfRel writer.arch ∧
      x.1 = st.reloc.partAt k := by
  have hcount := hfinal.count
  have hstart : st.reloc.pltStart = st.reloc.relativeCount + st.reloc.gotCount +
      st.reloc.copyCount + st.reloc.irelativeCount := rfl
  unfold DynamicImage.items at hk
  rw [hreloc] at hk
  have hlen : (((st.relocTables writer.arch segs).dynrel.getD .empty).refs .dyn).length =
      st.reloc.pltStart := by
    rw [← List.length_map RelRef.rel, refs_map_rel]
    change (st.relDyn.map _).length = _
    rw [List.length_map, WriteState.relDyn, List.length_take]
    omega
  obtain ⟨hget, hpart⟩ := passes_getElem? (by omega) hk
  rw [hlen] at hpart
  have hplt : (st.dynamicRelocation writer.arch segs).pltrel.map RelRef.rel =
      st.relPlt.map fun r => r.info.elfRel writer.arch := refs_map_rel _ _
  have hrels := congrArg (Option.map RelRef.rel) hget
  rw [← List.getElem?_map, List.map_append, refs_map_rel, hplt] at hrels
  change (st.relDyn.map _ ++ st.relPlt.map _)[k]? = _ at hrels
  rw [← List.map_append, WriteState.relDyn, WriteState.relPlt, List.take_append_drop,
    List.getElem?_map] at hrels
  obtain ⟨r, hr, heq⟩ := Option.map_eq_some_iff.mp hrels
  exact ⟨r, hr, heq.symm, hpart⟩

theorem symbolIdx_sym {w : Nat} {table : SymbolTable w} {idx : Nat} {sym : ElfSymbol w}
    {own : SymRef w × SymbolInfo} (hsym : table.symtab[idx]? = some sym)
    (h : table.symbolIdx idx = .ok own) : own.1.sym = sym := by
  unfold SymbolTable.symbolIdx SymbolTable.symbolAt at h
  rw [hsym] at h
  simp only [Exec.except_bind_ok_iff] at h
  obtain ⟨_, hself, name, _, version, _, hret⟩ := h
  cases hself
  cases hret
  rfl

variable (hc : Created writer rawRelocs listed u) (hs : Steps writer order u st header a₁ a₂ a₃)
  (hcol : u.symtab.Collected)
  (hinfo : ∀ info ∈ st.reloc.getRelocationInfos, info.FitsInfo writer.arch)
  (harch : proc.arch = writer.arch.target) (hseg : image.core.segments = segs)
  (hreloc : image.relocation = st.dynamicRelocation writer.arch segs)
  (hsyms : st.symtab.dynsym.map (Symbol.elfSymbol writer.arch.bits) <+: image.core.symtab.symtab)

include hc hs hcol hinfo harch hseg hreloc hsyms

/-- An entry patches what the generator has given its relocation. -/
theorem item_place (hk : (image.items proc)[k]? = some x) :
    ∃ r, st.reloc.relocs[k]? = some r ∧ ∀ a ∈ image.place proc x,
      Within (segs.base + BitVec.ofNat _ (st.placeAt writer.arch k))
        (st.placeLen writer.arch k r) a := by
  obtain ⟨r, hr, hrel, hpart⟩ := item_at (finalRelocs hc hs) hreloc hk
  have hfinal := final_located hc hs k r hr
  rw [Nat.zero_add] at hfinal
  have hfits := hinfo r.info (List.mem_map_of_mem (List.mem_of_getElem? hr))
  have hcopies := copies_iff harch hrel hpart hfits hfinal.classOf
  have hslot : image.slot proc x =
      segs.base + BitVec.ofNat _ (st.placeAt writer.arch k) := by
    unfold DynamicImage.slot ElfCore.base
    rw [hseg, hrel, ← hfinal.offset]
    rfl
  refine ⟨r, hr, fun a ha => ?_⟩
  have ha : Within (image.slot proc x) (image.placeLen proc x) a := ha
  rw [hslot] at ha
  refine Nat.lt_of_lt_of_le ha ?_
  unfold DynamicImage.placeLen WriteState.placeLen
  by_cases hcopy : st.reloc.classAt k = .copy
  · rw [if_pos (hcopies.mpr hcopy), if_pos hcopy]
    obtain ⟨e, -, hfrom⟩ := hfinal.source
    have hsize := hfrom.symSize
    rw [if_pos hcopy] at hsize
    obtain ⟨sym, hsym, hsymSize⟩ := placed_size hs hcol hsize
    split
    · rename_i own hown
      rw [hrel, RelocationInfo.elfRel_rSymbol, Nat.mod_eq_of_lt hfits.2] at hown
      have hentry : image.core.symtab.symtab[r.symIdx]? =
          some (sym.elfSymbol writer.arch.bits) := by
        refine Partly.getElem?_of_prefix hsyms ?_
        rw [List.getElem?_map, hsym]
        rfl
      rw [symbolIdx_sym hentry hown, ← hsymSize]
      exact Nat.mod_le _ _
    · exact Nat.zero_le _
  · rw [if_neg (mt hcopies.mp hcopy), if_neg hcopy, Arch.bits_div]

omit hcol hseg hsyms in
/-- Which entries look up no symbol. -/
theorem items_needNoSymbol
    (hclasses : ∀ info ∈ st.reloc.getRelocationInfos,
      writer.arch.classOf info.rType ≠ .got ∧ writer.arch.classOf info.rType ≠ .copy) :
    ∀ x ∈ image.items proc, NeedsNoSymbol proc x := by
  rintro ⟨part, ref⟩ hx
  obtain ⟨k, hk⟩ := List.mem_iff_getElem?.mp hx
  obtain ⟨r, hr, hrel, hpart⟩ := item_at (finalRelocs hc hs) hreloc hk
  dsimp only at hrel hpart
  have hmem : r.info ∈ st.reloc.getRelocationInfos :=
    List.mem_map_of_mem (List.mem_of_getElem? hr)
  have hclass : writer.arch.classOf r.info.rType = st.reloc.classAt k := by
    have hfinal := (final_located hc hs k r hr).classOf
    rwa [Nat.zero_add] at hfinal
  have htype : ref.rel.rType = r.info.rType.toNat := by
    rw [hrel, RelocationInfo.elfRel_rType, Nat.mod_eq_of_lt (hinfo r.info hmem).1]
  obtain ⟨hrelative, hirelative, hslot, -⟩ := writer.arch.target_types
  rw [← harch] at hrelative hirelative hslot
  rw [RelocMetaData.partAt_eq, ← hclass] at hpart
  cases h : writer.arch.classOf r.info.rType with
  | relative =>
      rw [h] at hpart
      rw [hpart]
      exact .relative (by rw [htype, hrelative, Arch.classOf_eq.1.mp h])
  | irelative =>
      rw [h] at hpart
      rw [hpart]
      exact .irelative (by simp) (by rw [htype, hirelative, Arch.classOf_eq.2.1.mp h])
  | plt =>
      rw [h] at hpart
      rw [hpart]
      exact .slot (by rw [htype, hslot, Arch.classOf_eq.2.2.1.mp h])
  | got => exact absurd h (hclasses r.info hmem).1
  | copy => exact absurd h (hclasses r.info hmem).2

variable (he : Emitted writer st layout phdrs file)
  (hm : segs.Holds (programHeaders writer.arch.bits file) file m)

include he hm

omit [CustomHasher] hcol hinfo harch hseg hreloc hsyms in
theorem place_fits {r : Reloc} (hr : st.reloc.relocs[k]? = some r) :
    st.placeAt writer.arch k + st.placeLen writer.arch k r ≤ 2 ^ writer.arch.bits := by
  have hkind := kind_mem writer u (st.reloc.classAt k)
  have hfits := (he.stands hc hs hm hkind.1 hkind.2).fits
  have hinside := (place_inside hc hs hr).2
  omega

/-- The places of the entries are apart. -/
theorem items_apart : (image.items proc).Pairwise fun x y =>
    Disjoint (image.place proc x) (image.place proc y) := by
  rw [List.pairwise_iff_getElem]
  intro i j hi hj hij
  obtain ⟨r, hr, hin⟩ := item_place hc hs hcol hinfo harch hseg hreloc hsyms
    (List.getElem?_eq_getElem hi)
  obtain ⟨r', hr', hin'⟩ := item_place hc hs hcol hinfo harch hseg hreloc hsyms
    (List.getElem?_eq_getElem hj)
  rw [Set.disjoint_left]
  intro a ha ha'
  exact within_apart (place_fits hc hs he hm hr) (place_fits hc hs he hm hr')
    (places_apart he.prepared hc hs hij hr hr') (hin a ha) (hin' a ha')

omit [CustomHasher] hcol hinfo harch hseg hreloc hsyms in
/-- The first three words of `.got.plt` are no place. -/
theorem reserved_word {r : Reloc} (hr : st.reloc.relocs[k]? = some r) {n : Nat} (hn : n < 3)
    {a : BitVec writer.arch.bits}
    (ha : Within (segs.base + BitVec.ofNat _ (st.placeAt writer.arch k))
      (st.placeLen writer.arch k r) a) :
    ¬ Within (st.addr writer.arch segs .gotPlt + BitVec.ofNat _ (n * (writer.arch.bits / 8)))
      (writer.arch.bits / 8) a := by
  have hgot := kind_mem writer u RelocClass.plt
  have hfits := (he.stands hc hs hm hgot.1 hgot.2).fits
  have hsize := (placeSizes hc hs).gotPlt
  have hword := Nat.mul_le_mul_right writer.arch.wordSize (show n + 1 ≤ 3 from hn)
  have htable := Nat.mul_le_mul_right writer.arch.wordSize (Nat.le_add_right 3 st.reloc.pltCount)
  rw [Nat.succ_mul] at hword
  rw [WriteState.addr, Arch.bits_div, BitVec.add_assoc, ← BitVec.ofNat_add]
  change st.manager.getVaddr .gotPlt + st.manager.getSize .gotPlt < _ at hfits
  refine within_apart (place_fits hc hs he hm hr) (by omega) ?_ ha
  by_cases hclass : st.reloc.classAt k = .plt
  · have hslot : 3 ≤ st.reloc.slotAt k := by
      unfold RelocMetaData.classAt at hclass
      unfold RelocMetaData.slotAt
      split_ifs at hclass ⊢
      omega
    have hplace : st.placeAt writer.arch k = st.manager.getVaddr (st.reloc.classAt k).kind +
        st.reloc.slotAt k * writer.arch.wordSize := placeAt_slot (by rw [hclass]; simp)
    have hmul := Nat.mul_le_mul_right writer.arch.wordSize hslot
    rw [hclass] at hplace
    change _ = st.manager.getVaddr .gotPlt + _ at hplace
    omega
  · have hne : (st.reloc.classAt k).kind ≠ .gotPlt := by
      cases h : st.reloc.classAt k
      case plt => exact absurd h hclass
      all_goals decide
    obtain ⟨hlo, hhi⟩ := place_inside hc hs hr
    have hkind := kind_mem writer u (st.reloc.classAt k)
    have happart := sections_apart he.prepared hc hs hkind.1 hgot.1 hkind.2 hgot.2 hne
    change _ ≤ st.manager.getVaddr .gotPlt ∨
      st.manager.getVaddr .gotPlt + st.manager.getSize .gotPlt ≤ _ at happart
    omega

theorem items_reserved (isLazy : Bool)
    (hgot : image.gotPlt = nonZero (st.addr writer.arch segs .gotPlt)) :
    ∀ x ∈ image.items proc, Disjoint (image.place proc x) (image.reserved proc isLazy) := by
  intro x hx
  obtain ⟨k, hk⟩ := List.mem_iff_getElem?.mp hx
  obtain ⟨r, hr, hin⟩ := item_place hc hs hcol hinfo harch hseg hreloc hsyms hk
  rw [Set.disjoint_left]
  rintro a ha ⟨-, -, got, hgot', hres⟩
  have hvalue : got = st.addr writer.arch segs .gotPlt := by
    rw [hgot, nonZero] at hgot'
    split at hgot'
    · cases hgot'
    · cases hgot'
      rfl
  subst hvalue
  have hoffsets := writer.arch.target_reserved
  rw [← harch] at hoffsets
  rcases hres with h | h
  · exact reserved_word hc hs he hm hr hoffsets.2 (hin a ha) h
  · exact reserved_word hc hs he hm hr hoffsets.1 (hin a ha) h

end Items

end File

section Main

variable [CustomHasher]

end Main

section Sample

attribute [local instance] constantHasher

theorem sample_relocations {out : ElfWriteOutput}
    (h : pageWriter.write insertionOrder sampleRelocs sampleSymbols = some out) :
    (∀ info ∈ out.relocations, info.FitsInfo pageWriter.arch) ∧
      ∀ info ∈ out.relocations, pageWriter.arch.classOf info.rType ≠ .got ∧
        pageWriter.arch.classOf info.rType ≠ .copy := by
  have hall : ((pageWriter.write insertionOrder sampleRelocs sampleSymbols).all fun out =>
      decide ((∀ info ∈ out.relocations, info.FitsInfo pageWriter.arch) ∧
        ∀ info ∈ out.relocations, pageWriter.arch.classOf info.rType ≠ .got ∧
          pageWriter.arch.classOf info.rType ≠ .copy)) = true := by decide +kernel
  rw [h] at hall
  exact of_decide_eq_true hall

theorem page_gotPlt {out : ElfWriteOutput} {image : UninitImage 64 Unit}
    {s' : LoadState 64 Unit Unit} {data : LazyData sampleProcess.arch Unit}
    (hwrite : pageWriter.write insertionOrder sampleRelocs sampleSymbols = some out)
    (hlen : out.data.length < 2 ^ 31)
    (hload : (loaderOn out.data 0x10000).load (fileReader out.data) [] emptyState =
      .ok (.dylib image) s')
    (hinit : image.init sampleProcess.arch s'.os.mem 7 = .ok data) : data.image.gotPlt ≠ none := by
  have hall : ((pageWriter.write insertionOrder sampleRelocs sampleSymbols).bind fun out =>
      (pageWriter.prepare insertionOrder sampleRelocs sampleSymbols).bind fun st =>
        (((loaderOn out.data 0x10000).load (fileReader out.data) []).run' emptyState).bind fun raw =>
          raw.dynamicImage.map fun image => decide (st.addr .x86_64 image.segments .gotPlt = 0)) =
            some false := by decide +kernel
  obtain ⟨st, hprepare, hrender, hrelocs, -⟩ := write_eq_some hwrite
  obtain ⟨layout, phdrs, he⟩ := emitted hprepare hrender (page_forLoader hlen)
  obtain ⟨u, header, a₁, a₂, a₃, hcreate, hs⟩ := prepare_created hprepare
  obtain ⟨image', himage, hholds, hptr⟩ := he.load_ok (created pageWriter hcreate) hs
    (unixMmap_mapsFile _ _) (fun h => by cases h; rfl) (fileReader_readsFile _) hload
  cases himage
  obtain ⟨data', hinit', -, -, hgot, -⟩ := he.image hcreate hs sample_wellListed
    (Nat.lt_trans hlen (by decide)) hholds hptr 7 hrelocs
  cases hinit.symm.trans hinit'
  have hraw : ((loaderOn out.data 0x10000).load (fileReader out.data) []).run' emptyState =
      some (.dylib image) := by
    unfold EStateM.run' EStateM.run
    rw [hload]
  rw [hwrite, hprepare] at hall
  dsimp only [Option.bind_some] at hall
  rw [hraw] at hall
  have hne : st.addr pageWriter.arch image.segments .gotPlt ≠ 0 :=
    of_decide_eq_false (Option.some.inj hall)
  rw [hgot, nonZero, if_neg hne]
  exact Option.some_ne_none _

end Sample

end ElfLoader.GenElf
