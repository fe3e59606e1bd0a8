import ElfLoader.Elf.DynamicOrder
import ElfLoader.GenElf.InMemory

/-! # The dynamic section of a generated file

The generator creates the entries with the sections and fills in the addresses when the
sections are placed. The loader finds these entries in memory, and takes the tables of
the module from them.
-/

namespace ElfLoader.GenElf

open ByteMemory Splice

/-! ## The values -/

namespace DynamicMetadata

/-- The entries with the tags of the section and these values. -/
def entriesOf (isRela : Bool) (value : BitVec 64 → Nat) : List DynamicEntry :=
  (dynTags isRela).map fun tag => ⟨tag, value tag⟩

theorem entriesOf_getElem? (isRela : Bool) (value : BitVec 64 → Nat) (i : Nat) :
    (entriesOf isRela value)[i]? = (dynTags isRela)[i]?.map fun tag => ⟨tag, value tag⟩ :=
  List.getElem?_map

/-- The values behind the updates, of which the last one counts. -/
def patchedValue (updates : List (BitVec 64 × Nat)) (value : BitVec 64 → Nat) :
    BitVec 64 → Nat :=
  updates.foldl (fun value u => Function.update value u.1 u.2) value

theorem updateEntry_entriesOf {isRela : Bool} {tag : BitVec 64} (htag : tag ∈ dynTags isRela)
    (v : Nat) (value : BitVec 64 → Nat) :
    updateEntry tag v (entriesOf isRela value) = entriesOf isRela (Function.update value tag v) := by
  have hnodup : (dynTags isRela).Nodup := by cases isRela <;> decide
  unfold updateEntry
  cases hpos : (entriesOf isRela value).findIdx? fun e => e.tag = tag with
  | none =>
      have hnone := List.findIdx?_eq_none_iff.mp hpos ⟨tag, value tag⟩ (List.mem_map_of_mem htag)
      simp at hnone
  | some pos =>
      obtain ⟨hlt, hfound, -⟩ := List.findIdx?_eq_some_iff_getElem.mp hpos
      have hentry := List.getElem?_eq_getElem hlt
      rw [entriesOf_getElem?, Option.map_eq_some_iff] at hentry
      obtain ⟨tag', hat, hentry⟩ := hentry
      rw [← hentry, decide_eq_true_iff] at hfound
      obtain rfl : tag' = tag := hfound
      apply List.ext_getElem?
      intro i
      rw [List.getElem?_set, entriesOf_getElem?, entriesOf_getElem?, if_pos hlt]
      by_cases heq : pos = i
      · subst heq
        rw [if_pos rfl, hat, Option.map_some, Function.update_self]
      · rw [if_neg heq]
        refine Option.map_congr fun other hother => ?_
        have hne : other ≠ tag' := by
          rintro rfl
          exact heq ((List.getElem?_inj (List.getElem?_eq_some_iff.mp hat).1 hnodup).mp
            (hat.trans hother.symm))
        rw [Function.update_of_ne hne]

theorem foldl_updateEntry {isRela : Bool} {updates : List (BitVec 64 × Nat)}
    (htags : ∀ u ∈ updates, u.1 ∈ dynTags isRela) (value : BitVec 64 → Nat) :
    updates.foldl (fun entries u => updateEntry u.1 u.2 entries) (entriesOf isRela value) =
      entriesOf isRela (patchedValue updates value) := by
  induction updates generalizing value with
  | nil => rfl
  | cons u updates ih =>
      rw [List.foldl_cons, updateEntry_entriesOf (htags u List.mem_cons_self),
        ih fun u' hu' => htags u' (List.mem_cons_of_mem u hu')]
      rfl

theorem new_entries {arch : Arch} {reloc : RelocMetaData} (data : DataMetaData)
    (text : CodeMetaData) (symtab : SymTabMetadata) (a : SectionAllocator)
    (hreloc : reloc.arch = arch) :
    ∃ value, (DynamicMetadata.new arch (text.createSections ++ data.createSections ++
        (TlsMetaData.new symtab a).1.createSection ++ symtab.createSections ++
        reloc.createSections)).dynEntries = entriesOf arch.isRela value ∧
      value dtPltrel = (if arch.isRela then dtRela else dtRel).toNat ∧ value dtNull = 0 := by
  rw [TlsMetaData.createSection_eq]
  unfold RelocMetaData.createSections
  rw [hreloc]
  refine ⟨fun tag => ((((DynamicMetadata.new arch (text.createSections ++ data.createSections ++
    symtab.createSections ++ reloc.createSections)).dynEntries).find? fun e => e.tag = tag).map
      DynamicEntry.value).getD 0, ?_⟩
  unfold RelocMetaData.createSections
  rw [hreloc]
  cases symtab.getTlsContent.isEmpty <;> cases arch <;> exact ⟨rfl, rfl, rfl⟩

end DynamicMetadata

/-! ## The target of the loader -/

/-- The loader that is compiled for the architecture. -/
def Arch.target : (arch : Arch) → ElfLoader.Arch arch.bits
  | .x86_64 => .x86_64
  | .x86 => .x86
  | .aarch64 => .aarch64
  | .riscv64 => .riscv64
  | .riscv32 => .riscv32
  | .arm => .arm
  | .loongarch64 => .loongarch64

theorem Arch.target_inPlaceAddend (arch : Arch) : arch.target.inPlaceAddend = !arch.isRela := by
  cases arch <;> rfl

theorem Arch.target_entrySize (arch : Arch) :
    entrySize arch.target = RelocMetaData.relEntrySize arch := by
  cases arch <;> rfl

/-! ## The section in memory -/

section Memory

variable {arch : Arch} {m : Bytes arch.bits}

/-- What the loader reads of an entry. -/
def DynamicEntry.dynEntry (w : Nat) (e : DynamicEntry) : DynEntry w :=
  (e.tag.toNat, BitVec.ofNat w e.value)

/-- The two words of an entry, and what stands behind them. -/
theorem read_dynamicEntry {p : BitVec arch.bits} {e : DynamicEntry} {rest : List UInt8}
    (h : read m p (DynamicEntry.write arch.is64 e ++ rest).length =
      DynamicEntry.write arch.is64 e ++ rest) :
    readWord m p = BitVec.ofNat arch.bits e.tag.toNat ∧
      readWord m (p + BitVec.ofNat arch.bits (arch.bits / 8)) = BitVec.ofNat arch.bits e.value ∧
      read m (p + BitVec.ofNat arch.bits (2 * (arch.bits / 8))) rest.length = rest := by
  unfold DynamicEntry.write at h
  rw [addrBytes_eq, addrBytes_eq, List.append_assoc, read_append_iff, read_append_iff,
    leBytes_length, leBytes_length, BitVec.add_assoc, ← BitVec.ofNat_add, ← Nat.two_mul] at h
  obtain ⟨htag, hvalue, hrest⟩ := h
  have hw := bits_mod_eight arch
  exact ⟨readWord_of_read hw htag, readWord_of_read hw hvalue, hrest⟩

/-- The section is found entry by entry where its bytes stand. -/
theorem dynamicAt_of_read {p : BitVec arch.bits} {es : List DynamicEntry}
    (htags : ∀ e ∈ es, e.tag ≠ dtNull ∧ e.tag.toNat < 2 ^ arch.bits)
    (h : read m p ((es ++ [DynamicEntry.mk dtNull 0]).flatMap
        (DynamicEntry.write arch.is64)).length =
      (es ++ [DynamicEntry.mk dtNull 0]).flatMap (DynamicEntry.write arch.is64)) :
    DynamicAt m p (es.map (DynamicEntry.dynEntry arch.bits)) := by
  induction es generalizing p with
  | nil =>
      obtain ⟨htag, -, -⟩ := read_dynamicEntry h
      change (readWord m p).toNat = 0
      rw [htag]
      exact Nat.zero_mod _
  | cons e es ih =>
      obtain ⟨hne, hlt⟩ := htags e List.mem_cons_self
      obtain ⟨htag, hvalue, hrest⟩ := read_dynamicEntry h
      refine ⟨fun hzero => hne (BitVec.eq_of_toNat_eq hzero), ?_, hvalue,
        ih (fun e' he' => htags e' (List.mem_cons_of_mem e he')) hrest⟩
      rw [htag, BitVec.toNat_ofNat, Nat.mod_eq_of_lt hlt]
      rfl

end Memory

/-! ## What the loader makes of it -/

section Parsed

variable {w : Nat}

/-- The locals of `ElfDynamic::new` behind the loop. -/
theorem foldl_put (isRela : Bool) (v : BitVec 64 → BitVec w) :
    ((dynTags isRela).dropLast.map fun tag => (tag.toNat, v tag)).foldl DynamicTags.put {} =
      { symtabOff := v dtSymtab
        strtabOff := v dtStrtab
        elfHashOff := some (v dtHash)
        gotOff := nonZero (v dtPltgot)
        pltrelSize := nonZero (v dtPltrelsz)
        pltrelOff := nonZero (v dtJmprel)
        relOff := nonZero (v (if isRela then dtRela else dtRel))
        relSize := nonZero (v (if isRela then dtRelasz else dtRelsz))
        relCount := nonZero (v (if isRela then dtRelacount else dtRelcount))
        isRela := some (decide ((v dtPltrel).toNat = ElfLoader.dtRela)) } := by
  cases isRela <;> rfl

/-- The tags of a generated section store what they hold. -/
theorem not_unsound {isRela : Bool} {v : BitVec 64 → BitVec w} :
    ¬ ∃ e ∈ (dynTags isRela).dropLast.map fun tag => (tag.toNat, v tag),
      DynamicTags.Unsound e := by
  have htags : ∀ tag ∈ (dynTags isRela).dropLast, tag.toNat ∉ uncheckedTags := by
    cases isRela <;> simp [dynTags, uncheckedTags, dtStrtab, dtStrsz, dtSymtab, dtSyment, dtHash,
      dtRela, dtRelasz, dtRelaent, dtRelacount, dtRel, dtRelsz, dtRelent, dtRelcount, dtJmprel,
      dtPltrelsz, dtPltrel, dtPltgot, dtVersym, dtVerneed, dtVerneednum, dtVerdef, dtVerdefnum,
      dtRpath, dtRunpath]
  rintro ⟨e, he, hunchecked, -⟩
  obtain ⟨tag, htag, rfl⟩ := List.mem_map.mp he
  exact htags tag htag hunchecked

theorem tag_bounds {arch : Arch} {tag : BitVec 64} (h : tag ∈ (dynTags arch.isRela).dropLast) :
    tag ≠ dtNull ∧ tag.toNat < 2 ^ arch.bits := by
  have hall : ∀ isRela, ∀ tag ∈ (dynTags isRela).dropLast, tag ≠ dtNull ∧ tag.toNat < 2 ^ 32 := by
    intro isRela
    cases isRela <;> simp [dynTags, dtStrtab, dtStrsz, dtSymtab, dtSyment, dtHash, dtRela,
      dtRelasz, dtRelaent, dtRelacount, dtRel, dtRelsz, dtRelent, dtRelcount, dtJmprel,
      dtPltrelsz, dtPltrel, dtPltgot, dtNull]
  obtain ⟨hne, hlt⟩ := hall _ tag h
  exact ⟨hne, Nat.lt_of_lt_of_le hlt (Nat.pow_le_pow_right (by omega) (by cases arch <;> decide))⟩

end Parsed

/-- The kinds of the two tables of relocations. -/
def Arch.relDynKind (arch : Arch) : SectionKind := if arch.isRela then .relaDyn else .relDyn
def Arch.relPltKind (arch : Arch) : SectionKind := if arch.isRela then .relaPlt else .relPlt

theorem Arch.relDynKind_spec (arch : Arch) : arch.relDynKind.buffer = .relDyn ∧
    arch.relDynKind.isAlloc = true ∧ arch.relDynKind.group = some 0 := by
  unfold Arch.relDynKind
  cases arch.isRela <;> decide

theorem Arch.relPltKind_spec (arch : Arch) : arch.relPltKind.buffer = .relPlt ∧
    arch.relPltKind.isAlloc = true ∧ arch.relPltKind.group = some 0 := by
  unfold Arch.relPltKind
  cases arch.isRela <;> decide

namespace WriteState

variable (st : WriteState) (arch : Arch) (segs : ElfSegments arch.bits)

/-- Where a section stands. -/
def addr (kind : SectionKind) : BitVec arch.bits :=
  segs.base + BitVec.ofNat arch.bits (st.manager.getVaddr kind)

/-- The entries of a table of relocations. -/
def relSlice (kind : SectionKind) : Slice arch.bits where
  ptr := st.addr arch segs kind
  count := st.manager.getSize kind / RelocMetaData.relEntrySize arch

/-- The dynamic section as the loader has it. -/
def elfDynamic : ElfDynamic arch.bits where
  dynPtr := st.addr arch segs .dynamic
  hashtab := .elf (st.addr arch segs .hash)
  symtab := st.addr arch segs .dynSym
  strtab := st.addr arch segs .dynStr
  bindNow := false
  gotPlt := nonZero (st.addr arch segs .gotPlt)
  initFn := none
  initArrayFn := none
  finiFn := none
  finiArrayFn := none
  pltrel := some (st.relSlice arch segs arch.relPltKind)
  dynrel := some (st.relSlice arch segs arch.relDynKind)
  relr := none
  relCount := nonZero (BitVec.ofNat arch.bits st.reloc.relativeCount)
  neededLibs := []
  versionIdx := none
  verneed := none
  verdef := none
  rpathOff := none
  runpathOff := none

end WriteState

section Parsed

variable {arch : Arch} {st : WriteState} {segs : ElfSegments arch.bits}

theorem nonZero_ofNat {w n : Nat} (hpos : 0 < n) (hlt : n < 2 ^ w) :
    nonZero (BitVec.ofNat w n) = some (BitVec.ofNat w n) := by
  refine if_neg fun hzero => ?_
  have hnat := congrArg BitVec.toNat hzero
  rw [BitVec.toNat_ofNat, Nat.mod_eq_of_lt hlt] at hnat
  exact absurd hnat (by simpa using Nat.ne_of_gt hpos)

theorem nonZero_getD {w : Nat} (v : BitVec w) : (nonZero v).getD 0 = v := by
  unfold nonZero
  split
  · rename_i hzero
    exact hzero.symm
  · rfl

theorem slice_eq {kind : SectionKind} (h : Placed st arch.bits kind) :
    ((nonZero (BitVec.ofNat arch.bits (st.manager.getVaddr kind))).map fun off =>
      segs.getSlice (entrySize arch.target) off
        ((nonZero (BitVec.ofNat arch.bits (st.manager.getSize kind))).getD 0)) =
      some (st.relSlice arch segs kind) := by
  have hfits := h.fits
  rw [nonZero_ofNat h.positive (by omega), nonZero_getD, Option.map_some]
  unfold ElfSegments.getSlice WriteState.relSlice
  rw [arch.target_entrySize, BitVec.toNat_ofNat, Nat.mod_eq_of_lt (by omega)]
  rfl

/-- The values of the patched section. -/
structure Patch (arch : Arch) (st : WriteState) (v : BitVec 64 → Nat) : Prop where
  strtab : v dtStrtab = st.manager.getVaddr .dynStr
  symtab : v dtSymtab = st.manager.getVaddr .dynSym
  hash : v dtHash = st.manager.getVaddr .hash
  pltgot : v dtPltgot = st.manager.getVaddr .gotPlt
  rel : v (if arch.isRela then dtRela else dtRel) = st.manager.getVaddr arch.relDynKind
  relsz : v (if arch.isRela then dtRelasz else dtRelsz) = st.manager.getSize arch.relDynKind
  relcount : v (if arch.isRela then dtRelacount else dtRelcount) = st.reloc.relativeCount
  jmprel : v dtJmprel = st.manager.getVaddr arch.relPltKind
  pltrelsz : v dtPltrelsz = st.manager.getSize arch.relPltKind
  pltrel : v dtPltrel = (if arch.isRela then dtRela else dtRel).toNat
  null : v dtNull = 0

theorem patch {value : BitVec 64 → Nat}
    (hpltrel : value dtPltrel = (if arch.isRela then dtRela else dtRel).toNat)
    (hnull : value dtNull = 0) :
    Patch arch st (DynamicMetadata.patchedValue (DynamicMetadata.updates arch st.manager
      st.reloc.relativeCount (st.manager.getVaddr .gotPlt)) value) := by
  unfold DynamicMetadata.updates DynamicMetadata.patchedValue
  cases hrela : arch.isRela <;> rw [hrela] at hpltrel <;> constructor
  all_goals simp [hrela, Arch.relDynKind, Arch.relPltKind, dtStrtab, dtSymtab, dtHash, dtPltgot,
    dtRela, dtRel, dtRelasz, dtRelsz, dtRelacount, dtRelcount, dtJmprel, dtPltrelsz, dtPltrel,
    dtNull]
  -- what is left are the entries that no update changes
  exacts [hpltrel, hnull, hpltrel, hnull]

/-- The record of the dynamic section, from the values of its entries. -/
theorem ofTags_eq {v : BitVec 64 → Nat} (hv : Patch arch st v)
    (hgotPlt : Placed st arch.bits .gotPlt) (hrelDyn : Placed st arch.bits arch.relDynKind)
    (hrelPlt : Placed st arch.bits arch.relPltKind) :
    ElfDynamic.ofTags arch.target segs (st.addr arch segs .dynamic)
        (((dynTags arch.isRela).dropLast.map fun tag =>
          (tag.toNat, BitVec.ofNat arch.bits (v tag))).foldl DynamicTags.put {}) =
      .ok (st.elfDynamic arch segs) := by
  have hcheck : decide ((BitVec.ofNat arch.bits (v dtPltrel)).toNat = ElfLoader.dtRela) =
      !arch.target.inPlaceAddend := by
    rw [hv.pltrel]
    cases arch <;> rfl
  have hgot := hgotPlt.fits
  rw [foldl_put]
  unfold ElfDynamic.ofTags ElfDynamic.checkRelType ElfDynamic.hashOff
  dsimp only
  rw [if_pos hcheck]
  change Except.ok (ElfDynamic.assemble _ _ _ _ _ _ _ _) = _
  unfold ElfDynamic.assemble WriteState.elfDynamic
  dsimp only
  rw [hv.rel, hv.relsz, hv.jmprel, hv.pltrelsz, slice_eq hrelDyn, slice_eq hrelPlt, hv.pltgot,
    nonZero_ofNat hgotPlt.positive (by omega), hv.relcount, hv.symtab, hv.strtab, hv.hash]
  simp [WriteState.addr, HashTabAddr.add, BitVec.add_comm]

end Parsed

section File

variable {writer : DylibWriter} {order : HashOrder} {rawRelocs : List RelocEntry}
  {listed : List SymbolDesc} {u : Unplaced} {st : WriteState} {layout header : ElfLayout}
  {phdrs : List ProgramHeader} {file : List UInt8} {a₁ a₂ a₃ : SectionAllocator}

/-- The entries before the sections are placed. -/
theorem created_entries (h : writer.createSections rawRelocs listed = some u) :
    ∃ value, u.dynMeta.dynEntries = DynamicMetadata.entriesOf writer.arch.isRela value ∧
      value dtPltrel = (if writer.arch.isRela then dtRela else dtRel).toNat ∧
      value dtNull = 0 := by
  unfold DylibWriter.createSections at h
  simp only [Option.bind_eq_bind, Option.bind_eq_some_iff] at h
  obtain ⟨⟨symtab, a₁⟩, -, ⟨reloc, a₂⟩, hreloc, h⟩ := h
  obtain ⟨value, hentries, hvalue⟩ := DynamicMetadata.new_entries
    (DataMetaData.new reloc symtab a₂).1
    (CodeMetaData.new symtab (DataMetaData.new reloc symtab a₂).2).1 symtab
    (CodeMetaData.new symtab (DataMetaData.new reloc symtab a₂).2).2
    (RelocMetaData.new_allocator hreloc).1
  refine ⟨value, ?_, hvalue⟩
  rw [← hentries, ← Option.some.inj h]

/-- The buffer of the section. -/
theorem dynamic_buffer (hs : Steps writer order u st header a₁ a₂ a₃)
    (hc : Created writer rawRelocs listed u) {value : BitVec 64 → Nat}
    (hentries : u.dynMeta.dynEntries = DynamicMetadata.entriesOf writer.arch.isRela value) :
    st.allocator .dynamic = (DynamicMetadata.entriesOf writer.arch.isRela
      (DynamicMetadata.patchedValue (DynamicMetadata.updates writer.arch st.manager
        st.reloc.relativeCount (st.manager.getVaddr .gotPlt)) value)).flatMap
          (DynamicEntry.write writer.arch.is64) := by
  have h := hs.dynamic
  unfold DynamicMetadata.patchDynamic at h
  simp only [Option.bind_eq_bind, Option.bind_eq_some_iff, Option.pure_def, Option.some.injEq] at h
  obtain ⟨id, hdata, hset⟩ := h
  cases dynamic_id hc hs hdata
  rw [← hset, SectionAllocator.set_self, DynamicMetadata.write, hc.dynArch, hentries,
    DynamicMetadata.foldl_updateEntry (updates_tags _ _ _ _)]

theorem Emitted.stands_relDyn (he : Emitted writer st layout phdrs file)
    (hc : Created writer rawRelocs listed u) (hs : Steps writer order u st header a₁ a₂ a₃)
    {m : Bytes writer.arch.bits} {segs : ElfSegments writer.arch.bits}
    (hm : segs.Holds (programHeaders writer.arch.bits file) file m) :
    Stands st m segs writer.arch.relDynKind := by
  refine he.stands hc hs hm ?_ writer.arch.relDynKind_spec.2.1
  unfold Arch.relDynKind
  cases writer.arch.isRela <;> simp [cores]

theorem Emitted.stands_relPlt (he : Emitted writer st layout phdrs file)
    (hc : Created writer rawRelocs listed u) (hs : Steps writer order u st header a₁ a₂ a₃)
    {m : Bytes writer.arch.bits} {segs : ElfSegments writer.arch.bits}
    (hm : segs.Holds (programHeaders writer.arch.bits file) file m) :
    Stands st m segs writer.arch.relPltKind := by
  refine he.stands hc hs hm ?_ writer.arch.relPltKind_spec.2.1
  unfold Arch.relPltKind
  cases writer.arch.isRela <;> simp [cores]

/-- The loader parses the section of a file in memory. -/
theorem Emitted.dynamic_parsed (he : Emitted writer st layout phdrs file)
    (hcreate : writer.createSections rawRelocs listed = some u)
    (hs : Steps writer order u st header a₁ a₂ a₃) {m : Bytes writer.arch.bits}
    {segs : ElfSegments writer.arch.bits}
    (hm : segs.Holds (programHeaders writer.arch.bits file) file m) :
    ElfDynamic.new writer.arch.target m segs (st.addr writer.arch segs .dynamic) =
      .ok (st.elfDynamic writer.arch segs) := by
  have hc := created writer hcreate
  obtain ⟨value, hentries, hpltrel, hnull⟩ := created_entries hcreate
  have hdynamic := he.stands hc hs hm (show SectionKind.dynamic ∈ _ from by simp [cores]) rfl
  have hgotPlt := he.stands hc hs hm (show SectionKind.gotPlt ∈ _ from by simp [cores]) rfl
  have hrelDyn := he.stands_relDyn hc hs hm
  have hrelPlt := he.stands_relPlt hc hs hm
  have hpatch : Patch writer.arch st _ := patch hpltrel hnull
  have hbuffer := dynamic_buffer hs hc hentries
  generalize DynamicMetadata.patchedValue (DynamicMetadata.updates writer.arch st.manager
    st.reloc.relativeCount (st.manager.getVaddr .gotPlt)) value = v at hpatch hbuffer
  have hsplit : DynamicMetadata.entriesOf writer.arch.isRela v =
      ((dynTags writer.arch.isRela).dropLast.map fun tag => ⟨tag, v tag⟩) ++ [⟨dtNull, 0⟩] := by
    rw [← hpatch.null]
    cases writer.arch.isRela <;> rfl
  rw [hsplit] at hbuffer
  have hread := hdynamic.bytes
  rw [← hdynamic.sized, show SectionKind.dynamic.buffer = .dynamic from rfl, hbuffer] at hread
  have hat : DynamicAt m (st.addr writer.arch segs .dynamic)
      ((dynTags writer.arch.isRela).dropLast.map fun tag =>
        (tag.toNat, BitVec.ofNat writer.arch.bits (v tag))) := by
    have h := dynamicAt_of_read (fun e hmem => ?_) hread
    · rwa [List.map_map] at h
    · obtain ⟨tag, htag, rfl⟩ := List.mem_map.mp hmem
      exact tag_bounds htag
  rw [ElfDynamic.new_eq _ _ hat, if_neg not_unsound]
  exact ofTags_eq hpatch hgotPlt.toPlaced hrelDyn.toPlaced hrelPlt.toPlaced

end File

end ElfLoader.GenElf
