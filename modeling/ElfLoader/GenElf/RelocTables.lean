import ElfLoader.GenElf.DynamicTags
import ElfLoader.Image.State
import ElfLoader.Library.Fields

/-! # The relocation tables of a generated file

The entries are written into two tables, one behind the other. In memory the loader
reads them back, and splits them into the classes the generator has collected.
-/

namespace ElfLoader.GenElf

open ByteMemory Splice

/-! ## One entry -/

def Reloc.info (r : Reloc) : RelocationInfo where
  vaddr := r.offset
  rType := r.rType
  symIdx := r.symIdx
  addend := r.addend
  symSize := r.symSize

/-- What the loader reads of an entry. -/
def RelocationInfo.elfRel (arch : Arch) (info : RelocationInfo) : ElfRelType arch.bits where
  rOffset := BitVec.ofNat arch.bits info.vaddr
  rInfo := BitVec.ofNat arch.bits info.symIdx <<< relBit arch.bits |||
    BitVec.ofNat arch.bits (info.rType.toNat % 2 ^ relBit arch.bits)
  rAddend := if arch.isRela then info.addend.setWidth arch.bits else 0

namespace RelocationInfo

variable (arch : Arch) (info : RelocationInfo)

theorem relBit_le : relBit arch.bits ≤ arch.bits := by
  cases arch <;> decide

theorem elfRel_rInfo : (info.elfRel arch).rInfo.toNat =
    2 ^ relBit arch.bits * (info.symIdx % 2 ^ (arch.bits - relBit arch.bits)) +
      info.rType.toNat % 2 ^ relBit arch.bits :=
  Fields.toNat_shiftLeft_or (relBit_le arch) _ (Nat.mod_lt _ (Nat.two_pow_pos _))

theorem elfRel_rType : (info.elfRel arch).rType = info.rType.toNat % 2 ^ relBit arch.bits := by
  rw [ElfRelType.rType, elfRel_rInfo, Nat.mul_add_mod, Nat.mod_mod]

theorem elfRel_rSymbol :
    (info.elfRel arch).rSymbol = info.symIdx % 2 ^ (arch.bits - relBit arch.bits) := by
  rw [ElfRelType.rSymbol, BitVec.toNat_ushiftRight, elfRel_rInfo, Nat.shiftRight_eq_div_pow,
    Nat.mul_add_div (Nat.two_pow_pos _), Nat.div_eq_of_lt (Nat.mod_lt _ (Nat.two_pow_pos _)),
    Nat.add_zero]

end RelocationInfo

theorem Reloc.write_eq (r : Reloc) (arch : Arch) :
    r.write arch.is64 arch.isRela = leBytes (r.info.elfRel arch).rOffset ++
      (leBytes (r.info.elfRel arch).rInfo ++
        if arch.isRela then leBytes (r.info.elfRel arch).rAddend else []) := by
  have hwide : r.rType.setWidth 64 = BitVec.ofNat 64 (r.rType.toNat % 2 ^ 32) := by
    rw [Nat.mod_eq_of_lt r.rType.isLt]
    exact BitVec.eq_of_toNat_eq (by simp)
  have hnarrow : r.rType &&& 0xff = BitVec.ofNat 32 (r.rType.toNat % 2 ^ 8) := by
    apply BitVec.eq_of_toNat_eq
    have hmask : (0xff : BitVec 32).toNat = 2 ^ 8 - 1 := rfl
    have hlt : r.rType.toNat % 2 ^ 8 < 2 ^ 32 := by omega
    rw [BitVec.toNat_and, BitVec.toNat_ofNat, hmask, Nat.and_two_pow_sub_one_eq_mod,
      Nat.mod_eq_of_lt hlt]
  unfold Reloc.write RelocationInfo.elfRel
  rw [hwide, hnarrow]
  cases arch <;> simp [addrBytes, Arch.is64, Arch.isRela, Arch.bits, relBit, Reloc.info] <;> rfl

section Memory

variable {arch : Arch} {m : Bytes arch.bits}

theorem readFrom_of_read {p : BitVec arch.bits} {r : Reloc}
    (h : read m p (r.write arch.is64 arch.isRela).length = r.write arch.is64 arch.isRela) :
    ElfRelType.readFrom arch.target m p = r.info.elfRel arch := by
  have hw := bits_mod_eight arch
  rw [r.write_eq arch, read_append_iff, leBytes_length, read_append_iff, leBytes_length,
    BitVec.add_assoc, ← BitVec.ofNat_add, ← Nat.two_mul] at h
  obtain ⟨hoffset, hinfo, haddend⟩ := h
  unfold ElfRelType.readFrom
  rw [readWord_of_read hw hoffset, readWord_of_read hw hinfo, arch.target_inPlaceAddend]
  cases hrela : arch.isRela with
  | false =>
      unfold RelocationInfo.elfRel
      rw [hrela]
      rfl
  | true =>
      rw [hrela, if_pos rfl, leBytes_length] at haddend
      rw [readWord_of_read hw haddend]
      rfl

/-- A table of entries that stand one behind the other. -/
theorem rels_of_read {p : BitVec arch.bits} {rs : List Reloc}
    (h : read m p (rs.flatMap fun r => r.write arch.is64 arch.isRela).length =
      rs.flatMap fun r => r.write arch.is64 arch.isRela) :
    (RelSlice.readFrom arch.target m { ptr := p, count := rs.length }).rels =
      rs.map fun r => r.info.elfRel arch := by
  unfold RelSlice.readFrom
  dsimp only
  induction rs generalizing p with
  | nil => rfl
  | cons r rs ih =>
      rw [List.flatMap_cons, read_append_iff] at h
      obtain ⟨hfirst, hrest⟩ := h
      rw [Reloc.write_length] at hrest
      rw [List.length_cons, List.range_succ_eq_map, List.map_cons, List.map_map, List.map_cons,
        ← ih hrest, Nat.zero_mul, BitVec.add_zero, readFrom_of_read hfirst]
      congr 1
      apply List.map_congr_left
      intro k _
      rw [Function.comp_apply, Nat.succ_eq_add_one, Nat.succ_mul, Nat.add_comm, BitVec.ofNat_add,
        ← BitVec.add_assoc, arch.target_entrySize]

end Memory

/-! ## The two tables -/

section Tables

variable {reloc reloc' : RelocMetaData} {symtab : SymTabMetadata} {a a' : SectionAllocator}
  {vaddrs : RelocMetaData.Vaddrs} {i : Nat} {r r' : Reloc} {rs rs' : List Reloc}

/-- The bytes of entries. -/
def RelocMetaData.tableOf (reloc : RelocMetaData) (rs : List Reloc) : List UInt8 :=
  rs.flatMap fun r => r.write reloc.arch.is64 reloc.arch.isRela

/-- Where the slots of a relocation count from. -/
def RelocMetaData.slotBase (reloc : RelocMetaData) (vaddrs : RelocMetaData.Vaddrs) (i : Nat) :
    Nat :=
  if i < reloc.pltStart then
    if reloc.relativeCount + reloc.gotCount ≤ i ∧
        i < reloc.relativeCount + reloc.gotCount + reloc.copyCount then vaddrs.data
    else vaddrs.got
  else vaddrs.gotPlt

/-- What one turn makes of a relocation, and where it writes the entry. -/
theorem patchOne_spec (h : reloc.patchOne vaddrs symtab i r a = some (r', a')) :
    (∃ addend, RelocMetaData.addendOf reloc.arch vaddrs symtab r = some addend ∧
      r' = { r with offset := r.offset + reloc.slotBase vaddrs i, addend }) ∧
      a' .relDyn = a .relDyn ++ reloc.tableOf (if i < reloc.pltStart then [r'] else []) ∧
      a' .relPlt = a .relPlt ++ reloc.tableOf (if i < reloc.pltStart then [] else [r']) := by
  unfold RelocMetaData.patchOne at h
  simp only [Option.bind_eq_bind, Option.bind_eq_some_iff, Option.pure_def, Option.some.injEq,
    Prod.mk.injEq] at h
  obtain ⟨addend, haddend, a₁, hslot, a₂, hstore, offset, hoffset, rfl, rfl⟩ := h
  obtain ⟨-, rfl⟩ := addU64_eq_some_iff.mp hoffset
  have hframe : ∀ id, id ≠ .got → id ≠ .gotPlt → a₂ id = a id := fun id hgot hgotPlt =>
    (storeWordIf_frame hstore hgot).trans (storeWordIf_frame hslot hgotPlt)
  have hdyn := hframe .relDyn (by decide) (by decide)
  have hplt := hframe .relPlt (by decide) (by decide)
  unfold RelocMetaData.slotBase RelocMetaData.pltStart RelocMetaData.tableOf
  by_cases hi : i < reloc.relativeCount + reloc.gotCount + reloc.copyCount + reloc.irelativeCount
  · rw [if_pos hi, if_pos hi, if_pos hi, if_pos hi]
    dsimp only
    refine ⟨⟨addend, haddend, ?_⟩, ?_, ?_⟩
    · simp only [decide_eq_true_eq]
    · rw [SectionAllocator.set_self, hdyn, List.flatMap_singleton]
    · rw [SectionAllocator.set_other _ _ (by decide), hplt, List.flatMap_nil, List.append_nil]
  · rw [if_neg hi, if_neg hi, if_neg hi, if_neg hi]
    dsimp only
    refine ⟨⟨addend, haddend, rfl⟩, ?_, ?_⟩
    · rw [SectionAllocator.set_other _ _ (by decide), hdyn, List.flatMap_nil, List.append_nil]
    · rw [SectionAllocator.set_self, hplt, List.flatMap_singleton]

/-- The positions below `pltStart` go to `.rel.dyn`, the others to `.rel.plt`. -/
theorem patchFrom_tables (h : reloc.patchFrom vaddrs symtab i rs a = some (rs', a')) :
    a' .relDyn = a .relDyn ++ reloc.tableOf (rs'.take (reloc.pltStart - i)) ∧
      a' .relPlt = a .relPlt ++ reloc.tableOf (rs'.drop (reloc.pltStart - i)) := by
  induction rs generalizing i a rs' with
  | nil =>
      cases h
      simp [RelocMetaData.tableOf]
  | cons r rs ih =>
      obtain ⟨r', a₁, rest, hone, hrest, rfl⟩ := patchFrom_cons h
      obtain ⟨-, hdyn, hplt⟩ := patchOne_spec hone
      obtain ⟨hrestDyn, hrestPlt⟩ := ih hrest
      rw [hrestDyn, hrestPlt, hdyn, hplt, List.append_assoc, List.append_assoc]
      unfold RelocMetaData.tableOf
      rw [← List.flatMap_append, ← List.flatMap_append]
      by_cases hi : i < reloc.pltStart
      · rw [if_pos hi, if_pos hi, show reloc.pltStart - i = reloc.pltStart - (i + 1) + 1 by omega]
        exact ⟨rfl, rfl⟩
      · rw [if_neg hi, if_neg hi, show reloc.pltStart - i = 0 by omega,
          show reloc.pltStart - (i + 1) = 0 by omega]
        exact ⟨rfl, rfl⟩

/-- The relocations keep their places, with the addresses of their slots. -/
theorem patchFrom_getElem? (h : reloc.patchFrom vaddrs symtab i rs a = some (rs', a')) (k : Nat) :
    (rs[k]? = none ∧ rs'[k]? = none) ∨ ∃ r addend, rs[k]? = some r ∧
      RelocMetaData.addendOf reloc.arch vaddrs symtab r = some addend ∧
      rs'[k]? = some { r with offset := r.offset + reloc.slotBase vaddrs (i + k), addend } := by
  induction rs generalizing i a rs' k with
  | nil =>
      cases h
      exact .inl ⟨rfl, rfl⟩
  | cons r rs ih =>
      obtain ⟨r', a₁, rest, hone, hrest, rfl⟩ := patchFrom_cons h
      obtain ⟨⟨addend, haddend, rfl⟩, -⟩ := patchOne_spec hone
      cases k with
      | zero => exact .inr ⟨r, addend, rfl, haddend, rfl⟩
      | succ k =>
          have hk := ih hrest k
          rwa [show i + 1 + k = i + (k + 1) by omega] at hk

/-- What the generator leaves of the relocations. -/
theorem patchAll_spec {manager : ShdrManager}
    (h : reloc.patchAll manager symtab a = some (reloc', a')) :
    ∃ relocs a₁, reloc.patchFrom
        { got := manager.getVaddr .got
          gotPlt := manager.getVaddr .gotPlt
          data := manager.getVaddr .data
          plt := manager.getVaddr .plt } symtab 0 reloc.relocs
          ((a₁.set .relDyn []).set .relPlt []) = some (relocs, a') ∧
      reloc' = { reloc with relocs } ∧
      reloc.patchGot (manager.getVaddr .dynamic) (manager.getVaddr .plt) a = some a₁ := by
  unfold RelocMetaData.patchAll at h
  simp only [Option.bind_eq_bind, Option.bind_eq_some_iff] at h
  obtain ⟨a₁, hgot, h⟩ := h
  unfold RelocMetaData.patchReloc at h
  simp only [Option.bind_eq_bind, Option.bind_eq_some_iff, Option.pure_def, Option.some.injEq,
    Prod.mk.injEq] at h
  obtain ⟨⟨relocs, a₂⟩, hloop, rfl, rfl⟩ := h
  exact ⟨relocs, a₁, hloop, rfl, hgot⟩

theorem patchAll_tables {manager : ShdrManager}
    (h : reloc.patchAll manager symtab a = some (reloc', a')) :
    a' .relDyn = reloc.tableOf (reloc'.relocs.take reloc.pltStart) ∧
      a' .relPlt = reloc.tableOf (reloc'.relocs.drop reloc.pltStart) := by
  obtain ⟨relocs, a₁, hloop, rfl, -⟩ := patchAll_spec h
  obtain ⟨hdyn, hplt⟩ := patchFrom_tables hloop
  rw [SectionAllocator.set_other _ _ (by decide), SectionAllocator.set_self, List.nil_append,
    Nat.sub_zero] at hdyn
  rw [SectionAllocator.set_self, List.nil_append, Nat.sub_zero] at hplt
  exact ⟨hdyn, hplt⟩

end Tables

/-! ## Their order -/

section Order

/-- Sections of one group, or of groups in order, keep the order they were created in. -/
theorem layout_order {manager manager' : ShdrManager} {layout layout' : ElfLayout}
    (h : manager.layout layout = some (manager', layout'))
    {c c' : SectionKind × Nat × Nat × SectionId}
    (hsub : [c, c'].Sublist (manager.shdrs.map Section.core))
    (hkey : c.1.group.getD 3 ≤ c'.1.group.getD 3) :
    ∃ sec sec', sec.core = c ∧ sec'.core = c' ∧ [sec, sec'].Sublist manager'.shdrs := by
  obtain ⟨secs, hsecs, heq⟩ := List.sublist_map_iff.mp hsub
  obtain ⟨sec, rest, rfl, rfl, hrest⟩ := List.map_eq_cons_iff.mp heq.symm
  obtain ⟨sec', rfl, rfl⟩ := List.map_eq_singleton_iff.mp hrest
  have hsorted : ([sec, sec'].map Section.core).Sublist (manager'.shdrs.map Section.core) := by
    rw [assign_core (layout_spec h).1]
    exact List.Sublist.map _ (List.pair_sublist_insertionSort hkey hsecs)
  obtain ⟨secs, hsecs', heq⟩ := List.sublist_map_iff.mp hsorted
  obtain ⟨first, rest, rfl, hfirst, hrest⟩ := List.map_eq_cons_iff.mp heq.symm
  obtain ⟨second, rfl, hsecond⟩ := List.map_eq_singleton_iff.mp hrest
  exact ⟨first, second, hfirst, hsecond, hsecs'⟩

variable {writer : DylibWriter} {order : HashOrder} {rawRelocs : List RelocEntry}
  {listed : List SymbolDesc} {u : Unplaced} {st : WriteState} {layout header : ElfLayout}
  {phdrs : List ProgramHeader} {file : List UInt8} {a₁ a₂ a₃ : SectionAllocator}

theorem cores_nodup (len : SectionId → Nat) (isRela is64 tls : Bool) :
    ((cores len isRela is64 tls).map Prod.fst).Nodup := by
  cases isRela <;> cases tls <;> simp [cores]

/-- There is one section of a kind, and it is found. -/
theorem find_of_mem (hc : Created writer rawRelocs listed u)
    (hs : Steps writer order u st header a₁ a₂ a₃) {sec : Section}
    (hsec : sec ∈ st.manager.shdrs) : st.manager.find sec.header.shtype = some sec := by
  have hperm : (st.manager.shdrs.map fun sec => sec.header.shtype).Perm _ :=
    List.map_map ▸ (placed_cores hc hs).map Prod.fst
  have hnodup := hperm.nodup_iff.mpr (cores_nodup _ _ _ _)
  cases hfind : st.manager.find sec.header.shtype with
  | none =>
      have hnone := List.find?_eq_none.mp hfind sec hsec
      simp at hnone
  | some found =>
      have hdecide := List.find?_some hfind
      exact congrArg some (List.inj_on_of_nodup_map hnodup (List.mem_of_find?_eq_some hfind) hsec
        (of_decide_eq_true hdecide))

/-- The tables of relocations are created one after the other. -/
theorem tables_created (len : SectionId → Nat) (isRela is64 tls : Bool) :
    [((if isRela then SectionKind.relaDyn else .relDyn), len .relDyn, (if is64 then 8 else 4),
        SectionId.relDyn),
      ((if isRela then SectionKind.relaPlt else .relPlt), len .relPlt, (if is64 then 8 else 4),
        SectionId.relPlt)].Sublist (cores len isRela is64 tls) := by
  cases tls
  · exact List.IsInfix.sublist ⟨(cores len isRela is64 false).take 6,
      (cores len isRela is64 false).drop 8, rfl⟩
  · exact List.IsInfix.sublist ⟨(cores len isRela is64 true).take 7,
      (cores len isRela is64 true).drop 9, rfl⟩

/-- The second table stands behind the first one. -/
theorem Emitted.tables_in_order (he : Emitted writer st layout phdrs file)
    (hc : Created writer rawRelocs listed u) (hs : Steps writer order u st header a₁ a₂ a₃) :
    st.manager.getVaddr writer.arch.relDynKind + st.manager.getSize writer.arch.relDynKind ≤
      st.manager.getVaddr writer.arch.relPltKind := by
  obtain ⟨-, hallocDyn, hdyn⟩ := writer.arch.relDynKind_spec
  obtain ⟨-, hallocPlt, hplt⟩ := writer.arch.relPltKind_spec
  obtain ⟨sec, sec', hcore, hcore', hsub⟩ := layout_order hs.layout
    (hc.cores ▸ tables_created u.sizeOf writer.arch.isRela writer.arch.is64
      (!u.symtab.getTlsContent.isEmpty))
    (Nat.le_of_eq (congrArg (fun g => g.getD 3) (hdyn.trans hplt.symm)))
  have hkind : sec.header.shtype = writer.arch.relDynKind := congrArg Prod.fst hcore
  have hkind' : sec'.header.shtype = writer.arch.relPltKind := congrArg Prod.fst hcore'
  have hmem : sec ∈ st.manager.shdrs := hsub.subset (by simp)
  have hmem' : sec' ∈ st.manager.shdrs := hsub.subset (by simp)
  have hle := (List.pairwise_cons.mp (he.prepared.laidOut.ascending.pairwise.sublist hsub)).1
    sec' List.mem_cons_self
  have haddr := he.prepared.laidOut.addr sec hmem
  have haddr' := he.prepared.laidOut.addr sec' hmem'
  rw [hkind, if_pos hallocDyn] at haddr
  rw [hkind', if_pos hallocPlt] at haddr'
  have hfound := find_of_mem hc hs hmem
  have hfound' := find_of_mem hc hs hmem'
  rw [hkind] at hfound
  rw [hkind'] at hfound'
  rw [ShdrManager.getVaddr, ShdrManager.getSize, ShdrManager.getVaddr, hfound, hfound']
  change sec.header.addr + sec.size ≤ sec'.header.addr
  omega

end Order

/-! ## The tables in memory -/

theorem tableOf_length (reloc : RelocMetaData) (rs : List Reloc) :
    (reloc.tableOf rs).length = rs.length * RelocMetaData.relEntrySize reloc.arch := by
  unfold RelocMetaData.tableOf
  rw [List.length_flatMap]
  simp only [Reloc.write_length, List.map_const', List.sum_replicate_nat]

theorem patchFrom_count {reloc : RelocMetaData} {symtab : SymTabMetadata} {a a' : SectionAllocator}
    {vaddrs : RelocMetaData.Vaddrs} {i : Nat} {rs rs' : List Reloc}
    (h : reloc.patchFrom vaddrs symtab i rs a = some (rs', a')) : rs'.length = rs.length := by
  induction rs generalizing i a rs' with
  | nil =>
      cases h
      rfl
  | cons r rs ih =>
      obtain ⟨r', a₁, rest, -, hrest, rfl⟩ := patchFrom_cons h
      rw [List.length_cons, List.length_cons, ih hrest]

namespace WriteState

variable (st : WriteState)

/-- The entries of the two tables. -/
def relDyn : List Reloc := st.reloc.relocs.take st.reloc.pltStart
def relPlt : List Reloc := st.reloc.relocs.drop st.reloc.pltStart

/-- The tables as the loader has them. -/
def relocTables (arch : Arch) (segs : ElfSegments arch.bits) : RelocTables arch.bits where
  pltrel := some
    { ptr := st.addr arch segs arch.relPltKind
      rels := st.relPlt.map fun r => r.info.elfRel arch }
  dynrel := some
    { ptr := st.addr arch segs arch.relDynKind
      rels := st.relDyn.map fun r => r.info.elfRel arch }
  relr := none
  relCount := (nonZero (BitVec.ofNat arch.bits st.reloc.relativeCount)).map BitVec.toNat

/-- The classes of the generator, as the loader splits the tables. -/
def dynamicRelocation (arch : Arch) (segs : ElfSegments arch.bits) :
    DynamicRelocation arch.bits where
  relative := .rel ((((st.relocTables arch segs).dynrel.getD .empty).refs .dyn).take
    st.reloc.relativeCount)
  pltrel := ((st.relocTables arch segs).pltrel.getD .empty).refs .plt
  dynrel := (((st.relocTables arch segs).dynrel.getD .empty).refs .dyn).drop
    st.reloc.relativeCount

end WriteState

theorem nonZero_toNat {w n : Nat} (h : n < 2 ^ w) :
    ((nonZero (BitVec.ofNat w n)).map BitVec.toNat).getD 0 = n := by
  have hnat : (BitVec.ofNat w n).toNat = n := by
    rw [BitVec.toNat_ofNat, Nat.mod_eq_of_lt h]
  unfold nonZero
  split
  · rename_i hzero
    rw [← hnat, hzero]
    rfl
  · exact hnat

section File

variable {writer : DylibWriter} {order : HashOrder} {rawRelocs : List RelocEntry}
  {listed : List SymbolDesc} {u : Unplaced} {st : WriteState} {layout header : ElfLayout}
  {phdrs : List ProgramHeader} {file : List UInt8} {a₁ a₂ a₃ : SectionAllocator}

/-- What stands in the two buffers at the end. -/
structure FinalRelocs (arch : Arch) (st : WriteState) : Prop where
  arch : st.reloc.arch = arch
  count : st.reloc.relocs.length = st.reloc.pltStart + st.reloc.pltCount
  relDyn : st.allocator .relDyn = st.reloc.tableOf st.relDyn
  relPlt : st.allocator .relPlt = st.reloc.tableOf st.relPlt

theorem finalRelocs (hc : Created writer rawRelocs listed u)
    (hs : Steps writer order u st header a₁ a₂ a₃) : FinalRelocs writer.arch st := by
  obtain ⟨a, a', hnew⟩ := hc.relocs
  obtain ⟨hdyn, hplt⟩ := patchAll_tables hs.reloc
  obtain ⟨relocs, a₄, hloop, hreloc, -⟩ := patchAll_spec hs.reloc
  have hcount := patchFrom_count hloop
  have hframe := (patchDynamic_length hs.dynamic (fun id hid => dynamic_id hc hs hid)
    (hc.dynArch ▸ hc.dynTags)).2
  constructor
  case arch => rw [hreloc, ← (RelocMetaData.new_allocator hnew).1]
  case count =>
    rw [hreloc]
    exact hcount.trans (relocs_length hnew)
  case relDyn =>
    rw [hframe .relDyn (by decide), hdyn, WriteState.relDyn, hreloc]
    rfl
  case relPlt =>
    rw [hframe .relPlt (by decide), hplt, WriteState.relPlt, hreloc]
    rfl

theorem FinalRelocs.relDyn_length (h : FinalRelocs writer.arch st) :
    st.relDyn.length = st.reloc.pltStart := by
  rw [WriteState.relDyn, List.length_take, h.count]
  omega

/-- A table is read back from the section that holds it. -/
theorem Stands.readFrom {arch : Arch} {m : Bytes arch.bits} {segs : ElfSegments arch.bits}
    {kind : SectionKind} {rs : List Reloc} (hstands : Stands st m segs kind)
    (harch : st.reloc.arch = arch) (hbuffer : st.allocator kind.buffer = st.reloc.tableOf rs) :
    RelSlice.readFrom arch.target m (st.relSlice arch segs kind) =
        { ptr := st.addr arch segs kind, rels := rs.map fun r => r.info.elfRel arch } ∧
      st.manager.getSize kind = rs.length * RelocMetaData.relEntrySize arch := by
  have hsize := hstands.sized
  rw [hbuffer, tableOf_length, harch] at hsize
  have hcount : (st.relSlice arch segs kind).count = rs.length := by
    rw [WriteState.relSlice, ← hsize]
    exact Nat.mul_div_cancel _ (by cases arch <;> decide)
  have hread := hstands.bytes
  rw [← hstands.sized, hbuffer, RelocMetaData.tableOf, harch] at hread
  refine ⟨?_, hsize.symm⟩
  have hslice : st.relSlice arch segs kind =
      { ptr := st.addr arch segs kind, count := rs.length } := by
    rw [← hcount]
    rfl
  rw [hslice, ← rels_of_read hread]
  rfl

variable {m : Bytes writer.arch.bits} {segs : ElfSegments writer.arch.bits}

theorem Emitted.relocTables_read (he : Emitted writer st layout phdrs file)
    (hc : Created writer rawRelocs listed u) (hs : Steps writer order u st header a₁ a₂ a₃)
    (hm : segs.Holds (programHeaders writer.arch.bits file) file m) :
    (st.elfDynamic writer.arch segs).relocTables writer.arch.target m =
      st.relocTables writer.arch segs := by
  have hfinal := finalRelocs hc hs
  obtain ⟨hdyn, -⟩ := (he.stands_relDyn hc hs hm).readFrom hfinal.arch
    (writer.arch.relDynKind_spec.1 ▸ hfinal.relDyn)
  obtain ⟨hplt, -⟩ := (he.stands_relPlt hc hs hm).readFrom hfinal.arch
    (writer.arch.relPltKind_spec.1 ▸ hfinal.relPlt)
  unfold ElfDynamic.relocTables WriteState.relocTables WriteState.elfDynamic
  dsimp only
  rw [Option.map_some, Option.map_some, hdyn, hplt]
  rfl

/-- With entries in the second table the two tables end at different addresses. -/
theorem Emitted.relPlt_of_end (he : Emitted writer st layout phdrs file)
    (hc : Created writer rawRelocs listed u) (hs : Steps writer order u st header a₁ a₂ a₃)
    (hm : segs.Holds (programHeaders writer.arch.bits file) file m)
    (hend : ((st.relocTables writer.arch segs).dynrel.getD .empty).endPtr writer.arch.target =
      ((st.relocTables writer.arch segs).pltrel.getD .empty).endPtr writer.arch.target) :
    st.relPlt = [] := by
  have hfinal := finalRelocs hc hs
  have hdyn := he.stands_relDyn hc hs hm
  have hplt := he.stands_relPlt hc hs hm
  obtain ⟨-, hdynSize⟩ := hdyn.readFrom hfinal.arch
    (writer.arch.relDynKind_spec.1 ▸ hfinal.relDyn)
  obtain ⟨-, hpltSize⟩ := hplt.readFrom hfinal.arch
    (writer.arch.relPltKind_spec.1 ▸ hfinal.relPlt)
  have horder := he.tables_in_order hc hs
  have hdynFits := hdyn.fits
  have hpltFits := hplt.fits
  unfold RelSlice.endPtr WriteState.relocTables WriteState.addr at hend
  dsimp only [Option.getD_some] at hend
  change _ + BitVec.ofNat _ (_ * entrySize writer.arch.target) =
    _ + BitVec.ofNat _ (_ * entrySize writer.arch.target) at hend
  rw [List.length_map, List.length_map, writer.arch.target_entrySize, ← hdynSize, ← hpltSize,
    BitVec.add_assoc, BitVec.add_assoc, BitVec.add_right_inj, ← BitVec.ofNat_add,
    ← BitVec.ofNat_add] at hend
  have hnat := congrArg BitVec.toNat hend
  rw [BitVec.toNat_ofNat, BitVec.toNat_ofNat, Nat.mod_eq_of_lt hdynFits,
    Nat.mod_eq_of_lt hpltFits] at hnat
  have hzero : st.relPlt.length * RelocMetaData.relEntrySize writer.arch = 0 := by omega
  rcases Nat.mul_eq_zero.mp hzero with hlength | hentry
  · exact List.length_eq_zero_iff.mp hlength
  · exact absurd hentry (by cases writer.arch <;> decide)

/-- The loader splits the tables into the classes of the generator. -/
theorem Emitted.split_tables (he : Emitted writer st layout phdrs file)
    (hc : Created writer rawRelocs listed u) (hs : Steps writer order u st header a₁ a₂ a₃)
    (hm : segs.Holds (programHeaders writer.arch.bits file) file m) :
    DynamicRelocation.new writer.arch.target (st.relocTables writer.arch segs) =
      .ok (st.dynamicRelocation writer.arch segs) := by
  have hfinal := finalRelocs hc hs
  have hdyn := he.stands_relDyn hc hs hm
  obtain ⟨-, hsize⟩ := hdyn.readFrom hfinal.arch (writer.arch.relDynKind_spec.1 ▸ hfinal.relDyn)
  rw [hfinal.relDyn_length] at hsize
  have hentry : 0 < RelocMetaData.relEntrySize writer.arch := by cases writer.arch <;> decide
  have hfits := hdyn.fits
  have hle : st.reloc.relativeCount ≤ st.reloc.pltStart := by
    unfold RelocMetaData.pltStart
    omega
  have hbytes := Nat.le_mul_of_pos_right st.reloc.pltStart hentry
  have hcount : ((st.relocTables writer.arch segs).relCount).getD 0 = st.reloc.relativeCount :=
    nonZero_toNat (by omega)
  have hlength : ((((st.relocTables writer.arch segs).dynrel.getD .empty).refs .dyn)).length =
      st.reloc.pltStart := by
    rw [RelSlice.refs_length, ← hfinal.relDyn_length]
    exact List.length_map _
  unfold DynamicRelocation.new
  rw [show (st.relocTables writer.arch segs).relr = none from rfl]
  dsimp only
  rw [hcount, hlength, if_neg (by omega)]
  split
  · rename_i hend
    have hempty : ((st.relocTables writer.arch segs).pltrel.getD .empty).rels.length = 0 := by
      change (st.relPlt.map _).length = 0
      rw [he.relPlt_of_end hc hs hm hend]
      rfl
    rw [hempty, if_neg (Nat.not_lt_zero _), Nat.sub_zero, List.take_length]
    rfl
  · rfl

end File

end ElfLoader.GenElf
