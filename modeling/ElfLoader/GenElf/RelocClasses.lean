import ElfLoader.GenElf.RelocTables

/-! # Where the relocations of a generated file go

The generator collects the relocations class by class, so the position of one says
which class it is of and which place it patches. No two of them patch one place.
-/

namespace ElfLoader.GenElf

open ByteMemory Splice Partial

/-! ## Positions -/

/-- The class that a type is of. -/
def Arch.classOf (arch : Arch) (t : BitVec 32) : RelocClass :=
  if t = arch.relativeReloc then .relative
  else if t = arch.irelativeReloc then .irelative
  else if t = arch.jumpSlotReloc then .plt
  else if t = arch.copyReloc then .copy
  else .got

/-- A class other than `.got` has one type. -/
theorem Arch.classOf_eq {arch : Arch} {t : BitVec 32} :
    (arch.classOf t = .relative ↔ t = arch.relativeReloc) ∧
      (arch.classOf t = .irelative ↔ t = arch.irelativeReloc) ∧
      (arch.classOf t = .plt ↔ t = arch.jumpSlotReloc) ∧
      (arch.classOf t = .copy ↔ t = arch.copyReloc) := by
  have hnodup : [arch.relativeReloc, arch.irelativeReloc, arch.jumpSlotReloc,
      arch.copyReloc].Nodup := by cases arch <;> decide
  simp only [List.nodup_cons, List.mem_cons, List.not_mem_nil, not_or, or_false] at hnodup
  unfold Arch.classOf
  split_ifs with hrelative hirelative hplt hcopy
  · subst hrelative
    exact ⟨by simp, by simp [hnodup.1], by simp [hnodup.1], by simp [hnodup.1]⟩
  · subst hirelative
    exact ⟨by simp [hrelative], by simp, by simp [hnodup.2.1], by simp [hnodup.2.1]⟩
  · subst hplt
    exact ⟨by simp [hrelative], by simp [hirelative], by simp, by simp [hnodup.2.2.1]⟩
  · exact ⟨by simp [hrelative], by simp [hirelative], by simp [hplt], by simp [hcopy]⟩
  · exact ⟨by simp [hrelative], by simp [hirelative], by simp [hplt], by simp [hcopy]⟩

namespace RelocMetaData

variable (reloc : RelocMetaData)

/-- The class of the relocation at a position. -/
def classAt (i : Nat) : RelocClass :=
  if i < reloc.relativeCount then .relative
  else if i < reloc.relativeCount + reloc.gotCount then .got
  else if i < reloc.relativeCount + reloc.gotCount + reloc.copyCount then .copy
  else if i < reloc.pltStart then .irelative
  else .plt

/-- The slot that a relocation patches if it copies nothing. -/
def slotAt (i : Nat) : Nat :=
  if i < reloc.relativeCount + reloc.gotCount then i
  else if i < reloc.pltStart then i - reloc.copyCount
  else 3 + (i - reloc.pltStart)

/-- Where a copy goes: behind the data and the copies before it. -/
def copyAt (dataSize i : Nat) : Nat := dataSize + ((reloc.relocs.take i).map Reloc.symSize).sum

end RelocMetaData

/-- What the entries of a list are, if the list stands behind `n` others. -/
def At {α : Type} (P : Nat → α → Prop) (n : Nat) (l : List α) : Prop :=
  ∀ j a, l[j]? = some a → P (n + j) a

theorem At.append {α : Type} {P : Nat → α → Prop} {n : Nat} {l l' : List α} (h : At P n l)
    (h' : At P (n + l.length) l') : At P n (l ++ l') := by
  intro j a hj
  by_cases hlt : j < l.length
  · rw [List.getElem?_append_left hlt] at hj
    exact h j a hj
  · rw [List.getElem?_append_right (by omega)] at hj
    have hP := h' (j - l.length) a hj
    rwa [show n + l.length + (j - l.length) = n + j by omega] at hP

/-! ## The relocations as they are collected -/

section Collect

variable {arch : Arch} {raw : List RelocEntry} {symtab : SymTabMetadata} {reloc : RelocMetaData}
  {a a' : SectionAllocator}

/-- A relocation and the entry it comes from. -/
structure FromEntry (symtab : SymTabMetadata) (c : RelocClass) (e : RelocEntry) (r : Reloc) :
    Prop where
  rType : r.rType = e.rType
  symIdx : if c = .relative ∨ c = .irelative then r.symIdx = 0
    else symtab.getSymIdx e.symbolName = some r.symIdx
  symSize : if c = .copy then symtab.getSymSize r.symIdx = some r.symSize else r.symSize = 0

theorem slotRelocs_spec {wordSize first : Nat} {symIdx : RelocEntry → Option Nat}
    {addend : RelocEntry → BitVec 64} {rs : List RelocEntry} {relocs : List Reloc}
    (h : RelocMetaData.slotRelocs wordSize first symIdx addend rs = some relocs) {j : Nat} {r : Reloc}
    (hj : relocs[j]? = some r) :
    ∃ e, rs[j]? = some e ∧ r.rType = e.rType ∧ symIdx e = some r.symIdx ∧ r.symSize = 0 ∧
      r.offset = (first + j) * wordSize := by
  rw [mapM_getElem? h, List.getElem?_zipIdx, Option.bind_eq_some_iff] at hj
  obtain ⟨⟨e, k⟩, he, hr⟩ := hj
  obtain ⟨e, hget, heq⟩ := Option.map_eq_some_iff.mp he
  cases heq
  simp only [Option.bind_eq_bind, Option.bind_eq_some_iff, Option.pure_def,
    Option.some.injEq] at hr
  obtain ⟨idx, hidx, rfl⟩ := hr
  exact ⟨e, hget, rfl, hidx, rfl, by rw [Nat.zero_add]⟩

theorem copyRelocs_spec {offset : Nat} {rs : List RelocEntry} {relocs : List Reloc}
    (h : RelocMetaData.copyRelocs symtab offset rs = some relocs) {j : Nat} {r : Reloc}
    (hj : relocs[j]? = some r) :
    ∃ e, rs[j]? = some e ∧ r.rType = e.rType ∧ symtab.getSymIdx e.symbolName = some r.symIdx ∧
      symtab.getSymSize r.symIdx = some r.symSize ∧
      r.offset = offset + ((relocs.take j).map Reloc.symSize).sum := by
  induction rs generalizing offset relocs j with
  | nil =>
      cases h
      cases hj
  | cons e rs ih =>
      unfold RelocMetaData.copyRelocs at h
      simp only [Option.bind_eq_bind, Option.bind_eq_some_iff, Option.pure_def,
        Option.some.injEq] at h
      obtain ⟨idx, hidx, size, hsize, rest, hrest, rfl⟩ := h
      cases j with
      | zero =>
          cases hj
          exact ⟨e, rfl, rfl, hidx, hsize, rfl⟩
      | succ j =>
          obtain ⟨e', he', hType, hIdx, hSize, hoffset⟩ := ih hrest hj
          refine ⟨e', he', hType, hIdx, hSize, ?_⟩
          rw [hoffset, List.take_succ_cons, List.map_cons, List.sum_cons, Nat.add_assoc]

/-- What is known of the relocation at a position. -/
structure Located (arch : Arch) (raw : List RelocEntry) (symtab : SymTabMetadata)
    (reloc : RelocMetaData) (dataSize i : Nat) (r : Reloc) : Prop where
  source : ∃ e ∈ raw, FromEntry symtab (reloc.classAt i) e r
  classOf : arch.classOf r.rType = reloc.classAt i
  offset : r.offset = if reloc.classAt i = .copy then reloc.copyAt dataSize i
    else reloc.slotAt i * arch.wordSize

theorem symSize_sum_eq_zero {l : List Reloc}
    (h : ∀ (j : Nat) (r : Reloc), l[j]? = some r → r.symSize = 0) :
    (l.map Reloc.symSize).sum = 0 := by
  refine List.sum_eq_zero fun n hn => ?_
  obtain ⟨r, hr, rfl⟩ := List.mem_map.mp hn
  obtain ⟨j, hj⟩ := List.mem_iff_getElem?.mp hr
  exact h j r hj

theorem mem_class {c : RelocClass} {j : Nat} {e : RelocEntry}
    (h : (raw.filter fun r => r.relocClass arch = c)[j]? = some e) :
    e ∈ raw ∧ arch.classOf e.rType = c := by
  obtain ⟨hraw, hclass⟩ := List.mem_filter.mp (List.mem_of_getElem? h)
  exact ⟨hraw, of_decide_eq_true hclass⟩

/-- A class whose relocations have slots. -/
theorem located_of_slots {c : RelocClass} {n first dataSize : Nat}
    {symIdx : RelocEntry → Option Nat} {addend : RelocEntry → BitVec 64} {relocs : List Reloc}
    (h : RelocMetaData.slotRelocs arch.wordSize first symIdx addend
      (raw.filter fun r => r.relocClass arch = c) = some relocs) (hc : c ≠ .copy)
    (hsym : ∀ e idx, symIdx e = some idx → if c = .relative ∨ c = .irelative then idx = 0
      else symtab.getSymIdx e.symbolName = some idx)
    (hat : ∀ j < relocs.length, reloc.classAt (n + j) = c ∧ reloc.slotAt (n + j) = first + j) :
    At (Located arch raw symtab reloc dataSize) n relocs := by
  intro j r hj
  obtain ⟨e, he, hType, hIdx, hSize, hoffset⟩ := slotRelocs_spec h hj
  obtain ⟨hraw, hclass⟩ := mem_class he
  obtain ⟨hclassAt, hslot⟩ := hat j (List.getElem?_eq_some_iff.mp hj).1
  constructor
  case source => exact ⟨e, hraw, hType, hclassAt ▸ hsym e r.symIdx hIdx, by rwa [hclassAt, if_neg hc]⟩
  case classOf => rw [hclassAt, hType, hclass]
  case offset => rw [hclassAt, if_neg hc, hslot, hoffset]

/-- Every relocation is of the class of its position, and patches its own slot. -/
theorem new_located (h : RelocMetaData.new arch raw symtab a = some (reloc, a')) :
    At (Located arch raw symtab reloc symtab.getDataContent.length) 0 reloc.relocs := by
  unfold RelocMetaData.new at h
  simp only [Option.bind_eq_bind, Option.bind_eq_some_iff, Option.pure_def, Option.some.injEq,
    Prod.mk.injEq] at h
  obtain ⟨relative, hrelative, got, hgot, copy, hcopy, irelative, hirelative, plt, hplt, hreloc,
    -⟩ := h
  have hrelocs : reloc.relocs = relative ++ got ++ copy ++ irelative ++ plt := by rw [← hreloc]
  have hrelCount : reloc.relativeCount = relative.length := by
    rw [← hreloc, slotRelocs_length hrelative]
  have hgotCount : reloc.gotCount = got.length := by rw [← hreloc, slotRelocs_length hgot]
  have hcopyCount : reloc.copyCount = copy.length := by rw [← hreloc, copyRelocs_length hcopy]
  have hirelCount : reloc.irelativeCount = irelative.length := by
    rw [← hreloc, slotRelocs_length hirelative]
  have hstart : reloc.pltStart =
      reloc.relativeCount + reloc.gotCount + reloc.copyCount + reloc.irelativeCount := rfl
  rw [← slotRelocs_length hrelative] at hgot hirelative
  rw [← slotRelocs_length hgot] at hirelative
  have hnamed : ∀ (e : RelocEntry) (idx : Nat), symtab.getSymIdx e.symbolName = some idx →
      symtab.getSymIdx e.symbolName = some idx := fun _ _ h => h
  have hunnamed : ∀ (e : RelocEntry) (idx : Nat), some 0 = some idx → idx = 0 := by simp
  rw [hrelocs]
  refine At.append (At.append (At.append (At.append ?_ ?_) ?_) ?_) ?_
  · refine located_of_slots hrelative (by decide) hunnamed fun j hj => ?_
    unfold RelocMetaData.classAt RelocMetaData.slotAt
    rw [if_pos (by omega), if_pos (by omega)]
    exact ⟨rfl, rfl⟩
  · refine located_of_slots hgot (by decide) hnamed fun j hj => ?_
    unfold RelocMetaData.classAt RelocMetaData.slotAt
    rw [if_neg (by omega), if_pos (by omega), if_pos (by omega)]
    exact ⟨rfl, by omega⟩
  · intro j r hj
    have hlt := (List.getElem?_eq_some_iff.mp hj).1
    obtain ⟨e, he, hType, hIdx, hSize, hoffset⟩ := copyRelocs_spec hcopy hj
    obtain ⟨hraw, hclass⟩ := mem_class he
    rw [List.length_append, Nat.zero_add]
    have hat : reloc.classAt (relative.length + got.length + j) = .copy := by
      unfold RelocMetaData.classAt
      rw [if_neg (by omega), if_neg (by omega), if_pos (by omega)]
    have hzero : ((relative ++ got).map Reloc.symSize).sum = 0 := by
      rw [List.map_append, List.sum_append, symSize_sum_eq_zero fun k r hk =>
        (slotRelocs_spec hrelative hk).choose_spec.2.2.2.1, symSize_sum_eq_zero fun k r hk =>
        (slotRelocs_spec hgot hk).choose_spec.2.2.2.1]
    constructor
    case source =>
      refine ⟨e, hraw, hType, ?_, ?_⟩
      · rwa [hat]
      · rwa [hat]
    case classOf => rw [hat, hType, hclass]
    case offset =>
      have htake : reloc.relocs.take (relative.length + got.length + j) =
          relative ++ got ++ copy.take j := by
        rw [hrelocs, List.append_assoc, List.append_assoc, ← List.length_append,
          List.take_length_add_append, List.take_append_of_le_length (Nat.le_of_lt hlt)]
      rw [hat, if_pos rfl, hoffset, RelocMetaData.copyAt, htake, List.map_append, List.sum_append,
        hzero, Nat.zero_add]
  · refine located_of_slots hirelative (by decide) hunnamed fun j hj => ?_
    rw [List.length_append, List.length_append, Nat.zero_add]
    unfold RelocMetaData.classAt RelocMetaData.slotAt
    rw [if_neg (by omega), if_neg (by omega), if_neg (by omega), if_pos (by omega),
      if_neg (by omega), if_pos (by omega)]
    exact ⟨rfl, by omega⟩
  · refine located_of_slots hplt (by decide) hnamed fun j hj => ?_
    rw [List.length_append, List.length_append, List.length_append, Nat.zero_add]
    unfold RelocMetaData.classAt RelocMetaData.slotAt
    rw [if_neg (by omega), if_neg (by omega), if_neg (by omega), if_neg (by omega),
      if_neg (by omega), if_neg (by omega)]
    exact ⟨rfl, by omega⟩

end Collect

/-! ## The places in the finished file -/

section Places

variable (st : WriteState) (arch : Arch)

namespace WriteState

/-- The address of the place that the relocation at a position patches. -/
def placeAt (i : Nat) : Nat :=
  match st.reloc.classAt i with
  | .copy => st.manager.getVaddr .data + st.reloc.copyAt st.symtab.getDataContent.length i
  | .plt => st.manager.getVaddr .gotPlt + st.reloc.slotAt i * arch.wordSize
  | _ => st.manager.getVaddr .got + st.reloc.slotAt i * arch.wordSize

/-- The bytes that the relocation patches. -/
def placeLen (i : Nat) (r : Reloc) : Nat :=
  if st.reloc.classAt i = .copy then r.symSize else arch.wordSize

end WriteState

/-- What is known of a relocation of the finished file. -/
structure Final (raw : List RelocEntry) (symtab : SymTabMetadata) (i : Nat) (r : Reloc) : Prop where
  source : ∃ e ∈ raw, FromEntry symtab (st.reloc.classAt i) e r
  classOf : arch.classOf r.rType = st.reloc.classAt i
  offset : r.offset = st.placeAt arch i

end Places

section File

variable {writer : DylibWriter} {order : HashOrder} {rawRelocs : List RelocEntry}
  {listed : List SymbolDesc} {u : Unplaced} {st : WriteState} {layout header : ElfLayout}
  {phdrs : List ProgramHeader} {file : List UInt8} {a₁ a₂ a₃ : SectionAllocator}

theorem slotBase_eq (reloc : RelocMetaData) (vaddrs : RelocMetaData.Vaddrs) (i : Nat) :
    reloc.slotBase vaddrs i = match reloc.classAt i with
      | .copy => vaddrs.data
      | .plt => vaddrs.gotPlt
      | _ => vaddrs.got := by
  have hstart : reloc.pltStart =
      reloc.relativeCount + reloc.gotCount + reloc.copyCount + reloc.irelativeCount := rfl
  unfold RelocMetaData.slotBase RelocMetaData.classAt
  split_ifs <;> first | rfl | omega

theorem patchFrom_symSize {reloc : RelocMetaData} {symtab : SymTabMetadata}
    {a a' : SectionAllocator} {vaddrs : RelocMetaData.Vaddrs} {i : Nat} {rs rs' : List Reloc}
    (h : reloc.patchFrom vaddrs symtab i rs a = some (rs', a')) :
    rs'.map Reloc.symSize = rs.map Reloc.symSize := by
  apply List.ext_getElem?
  intro k
  rw [List.getElem?_map, List.getElem?_map]
  rcases patchFrom_getElem? h k with ⟨hnone, hnone'⟩ | ⟨r, addend, hr, -, hr'⟩
  · rw [hnone, hnone']
  · rw [hr, hr']
    rfl

theorem final_located (hc : Created writer rawRelocs listed u)
    (hs : Steps writer order u st header a₁ a₂ a₃) :
    At (Final st writer.arch rawRelocs u.symtab) 0 st.reloc.relocs := by
  obtain ⟨a, a', hnew⟩ := hc.relocs
  obtain ⟨relocs, a₄, hloop, hreloc, -⟩ := patchAll_spec hs.reloc
  obtain ⟨-, -, dynsym, hsymtab⟩ := symtab_spec hs
  have hlocated := new_located hnew
  have hsizes := patchFrom_symSize hloop
  intro i r hi
  rw [hreloc] at hi
  rcases patchFrom_getElem? hloop i with ⟨-, hnone⟩ | ⟨r₀, addend, hr₀, -, hr⟩
  · cases hi.symm.trans hnone
  rw [Nat.zero_add] at hr
  cases hi.symm.trans hr
  have hat := hlocated i r₀ hr₀
  rw [Nat.zero_add] at hat ⊢
  have hclassAt : st.reloc.classAt i = u.reloc.classAt i := by rw [hreloc]; rfl
  have hslotAt : st.reloc.slotAt i = u.reloc.slotAt i := by rw [hreloc]; rfl
  have hcopyAt : ∀ n, st.reloc.copyAt n i = u.reloc.copyAt n i := by
    intro n
    unfold RelocMetaData.copyAt
    rw [List.map_take, List.map_take, hreloc]
    exact congrArg (fun l => n + (l.take i).sum) hsizes
  obtain ⟨e, he, hfrom⟩ := hat.source
  constructor
  case source =>
    rw [hclassAt]
    exact ⟨e, he, hfrom.rType, hfrom.symIdx, hfrom.symSize⟩
  case classOf => rw [hclassAt, ← hat.classOf]
  case offset =>
    have hdata : st.symtab.getDataContent = u.symtab.getDataContent := by
      rw [hsymtab]
      rfl
    have hoffset := hat.offset
    dsimp only
    rw [slotBase_eq, hoffset, WriteState.placeAt, hclassAt, hslotAt, hcopyAt, hdata]
    cases u.reloc.classAt i <;> exact Nat.add_comm _ _

section Sections

variable {placed : ElfLayout} {kind kind' : SectionKind}
  (hp : Prepared writer st placed) (hc : Created writer rawRelocs listed u)
  (hs : Steps writer order u st header a₁ a₂ a₃)

include hc hs

theorem getSize_eq (hkind : kind ∈ (cores u.sizeOf writer.arch.isRela writer.arch.is64
      (!u.symtab.getTlsContent.isEmpty)).map Prod.fst) :
    st.manager.getSize kind = u.sizeOf kind.buffer := by
  obtain ⟨sec, hsec, hfind, -, hbuffer⟩ := section_of_core hc hs hkind
  rw [← hbuffer, ← buffer_length hc hs, section_sized hc hs hsec, ShdrManager.getSize, hfind]
  rfl

include hp

/-- Sections with addresses share none. -/
theorem sections_apart (hkind : kind ∈ (cores u.sizeOf writer.arch.isRela writer.arch.is64
      (!u.symtab.getTlsContent.isEmpty)).map Prod.fst)
    (hkind' : kind' ∈ (cores u.sizeOf writer.arch.isRela writer.arch.is64
      (!u.symtab.getTlsContent.isEmpty)).map Prod.fst)
    (halloc : kind.isAlloc = true) (halloc' : kind'.isAlloc = true) (hne : kind ≠ kind') :
    st.manager.getVaddr kind + st.manager.getSize kind ≤ st.manager.getVaddr kind' ∨
      st.manager.getVaddr kind' + st.manager.getSize kind' ≤ st.manager.getVaddr kind := by
  obtain ⟨sec, hsec, hfind, hshtype, -⟩ := section_of_core hc hs hkind
  obtain ⟨sec', hsec', hfind', hshtype', -⟩ := section_of_core hc hs hkind'
  have hdiffer : sec ≠ sec' := by
    rintro rfl
    exact hne (hshtype.symm.trans hshtype')
  have hpairs := hp.laidOut.ascending.pairwise.imp
    (S := fun a b : Section => a.offset + a.size ≤ b.offset ∨ b.offset + b.size ≤ a.offset)
    fun h => .inl h
  have hsymm : Std.Symm fun a b : Section =>
      a.offset + a.size ≤ b.offset ∨ b.offset + b.size ≤ a.offset := ⟨fun _ _ h => h.symm⟩
  have happart := hpairs.forall hsec hsec' hdiffer
  have haddr := hp.laidOut.addr sec hsec
  have haddr' := hp.laidOut.addr sec' hsec'
  rw [hshtype, if_pos halloc] at haddr
  rw [hshtype', if_pos halloc'] at haddr'
  rw [ShdrManager.getVaddr, ShdrManager.getVaddr, ShdrManager.getSize, ShdrManager.getSize, hfind,
    hfind']
  change sec.header.addr + sec.size ≤ sec'.header.addr ∨
    sec'.header.addr + sec'.size ≤ sec.header.addr
  omega

end Sections

/-! ## Places -/

/-- The section that a class patches. -/
def RelocClass.kind : RelocClass → SectionKind
  | .copy => .data
  | .plt => .gotPlt
  | _ => .got

theorem sum_take_add_le {l : List Nat} {i j n : Nat} (hi : l[i]? = some n) (hij : i < j) :
    (l.take i).sum + n ≤ (l.take j).sum := by
  have hstep : (l.take (i + 1)).sum = (l.take i).sum + n := by
    rw [List.take_add_one, hi, Option.toList_some, List.sum_append, List.sum_singleton]
  obtain ⟨k, rfl⟩ := Nat.exists_eq_add_of_lt hij
  rw [← hstep, Nat.add_right_comm, List.take_add (i := i + 1), List.sum_append]
  exact Nat.le_add_right _ _

theorem new_counts {arch : Arch} {raw : List RelocEntry} {symtab : SymTabMetadata}
    {reloc : RelocMetaData} {a a' : SectionAllocator}
    (h : RelocMetaData.new arch raw symtab a = some (reloc, a')) :
    reloc.totalCopySize = (reloc.relocs.map Reloc.symSize).sum := by
  unfold RelocMetaData.new at h
  simp only [Option.bind_eq_bind, Option.bind_eq_some_iff, Option.pure_def, Option.some.injEq,
    Prod.mk.injEq] at h
  obtain ⟨relative, hrelative, got, hgot, copy, hcopy, irelative, hirelative, plt, hplt, rfl, -⟩ := h
  have hzero : ∀ {first : Nat} {symIdx : RelocEntry → Option Nat} {addend : RelocEntry → BitVec 64}
      {rs : List RelocEntry} {relocs : List Reloc},
      RelocMetaData.slotRelocs arch.wordSize first symIdx addend rs = some relocs →
        (relocs.map Reloc.symSize).sum = 0 := fun h => symSize_sum_eq_zero fun k r hk =>
    (slotRelocs_spec h hk).choose_spec.2.2.2.1
  simp only [List.map_append, List.sum_append, hzero hrelative, hzero hgot, hzero hirelative,
    hzero hplt, Nat.zero_add, Nat.add_zero]

/-- The last slot of a table ends in the table. -/
theorem slot_inside {reloc : RelocMetaData} {i : Nat}
    (hi : i < reloc.pltStart + reloc.pltCount) :
    reloc.slotAt i + 1 ≤ if reloc.classAt i = .plt then 3 + reloc.pltCount
      else 1 + reloc.relativeCount + reloc.gotCount + reloc.irelativeCount := by
  have hstart : reloc.pltStart =
      reloc.relativeCount + reloc.gotCount + reloc.copyCount + reloc.irelativeCount := rfl
  unfold RelocMetaData.classAt RelocMetaData.slotAt
  split_ifs <;> first | omega | simp_all

/-- Of two slots in one table the first belongs to the first relocation. -/
theorem slot_lt {reloc : RelocMetaData} {i j : Nat} (hij : i < j)
    (hi : reloc.classAt i ≠ .copy) (hj : reloc.classAt j ≠ .copy)
    (hkind : (reloc.classAt i).kind = (reloc.classAt j).kind) :
    reloc.slotAt i + 1 ≤ reloc.slotAt j := by
  have hstart : reloc.pltStart =
      reloc.relativeCount + reloc.gotCount + reloc.copyCount + reloc.irelativeCount := rfl
  unfold RelocMetaData.classAt at hi hj hkind
  unfold RelocMetaData.slotAt
  split_ifs at hi hj hkind ⊢ <;> first | omega | simp_all [RelocClass.kind]

/-- The sizes of the sections with places. -/
structure PlaceSizes (arch : Arch) (st : WriteState) : Prop where
  got : st.manager.getSize .got =
    (1 + st.reloc.relativeCount + st.reloc.gotCount + st.reloc.irelativeCount) * arch.wordSize
  gotPlt : st.manager.getSize .gotPlt = (3 + st.reloc.pltCount) * arch.wordSize
  data : st.manager.getSize .data =
    st.symtab.getDataContent.length + (st.reloc.relocs.map Reloc.symSize).sum

theorem placeSizes (hc : Created writer rawRelocs listed u)
    (hs : Steps writer order u st header a₁ a₂ a₃) : PlaceSizes writer.arch st := by
  obtain ⟨a, a', hnew⟩ := hc.relocs
  obtain ⟨relocs, a₄, hloop, hreloc, -⟩ := patchAll_spec hs.reloc
  obtain ⟨-, -, dynsym, hsymtab⟩ := symtab_spec hs
  have harch := (RelocMetaData.new_allocator hnew).1
  constructor
  case got =>
    rw [getSize_eq hc hs (by simp [cores]), hreloc, ← harch]
    change (u.allocator .got).length = _
    rw [hc.got, List.length_replicate]
    rfl
  case gotPlt =>
    rw [getSize_eq hc hs (by simp [cores]), hreloc, ← harch]
    change (u.allocator .gotPlt).length = _
    rw [hc.gotPlt, List.length_replicate]
    rfl
  case data =>
    have hdata : st.symtab.getDataContent = u.symtab.getDataContent := by
      rw [hsymtab]
      rfl
    rw [getSize_eq hc hs (by simp [cores]), hreloc, hdata]
    change (u.allocator .data).length = _ + (relocs.map Reloc.symSize).sum
    rw [hc.data, List.length_append, List.length_replicate, new_counts hnew,
      patchFrom_symSize hloop]

/-- A place lies in the section of its class. -/
theorem place_inside (hc : Created writer rawRelocs listed u)
    (hs : Steps writer order u st header a₁ a₂ a₃) {i : Nat} {r : Reloc}
    (hi : st.reloc.relocs[i]? = some r) :
    st.manager.getVaddr (st.reloc.classAt i).kind ≤ st.placeAt writer.arch i ∧
      st.placeAt writer.arch i + st.placeLen writer.arch i r ≤
        st.manager.getVaddr (st.reloc.classAt i).kind +
          st.manager.getSize (st.reloc.classAt i).kind := by
  have hsizes := placeSizes hc hs
  have hlt := (List.getElem?_eq_some_iff.mp hi).1
  rw [(finalRelocs hc hs).count] at hlt
  have hslot := Nat.mul_le_mul_right writer.arch.wordSize (slot_inside hlt)
  have hsym : (st.reloc.relocs.map Reloc.symSize)[i]? = some r.symSize := by
    rw [List.getElem?_map, hi]
    rfl
  have hsum := sum_take_add_le hsym (List.getElem?_eq_some_iff.mp hsym).1
  rw [List.take_length, ← List.map_take] at hsum
  rw [Nat.succ_mul] at hslot
  unfold WriteState.placeAt WriteState.placeLen RelocMetaData.copyAt
  cases hclass : st.reloc.classAt i <;> rw [hclass] at hslot <;>
    simp only [RelocClass.kind, reduceCtorEq, if_false, if_true] at hslot ⊢
  case copy =>
    rw [hsizes.data]
    omega
  case plt =>
    rw [hsizes.gotPlt]
    omega
  all_goals
    rw [hsizes.got]
    omega

theorem placeAt_slot {arch : Arch} {i : Nat} (h : st.reloc.classAt i ≠ .copy) :
    st.placeAt arch i = st.manager.getVaddr (st.reloc.classAt i).kind +
      st.reloc.slotAt i * arch.wordSize := by
  unfold WriteState.placeAt
  cases hclass : st.reloc.classAt i
  case copy => exact absurd hclass h
  all_goals rfl

theorem placeAt_copy {arch : Arch} {i : Nat} (h : st.reloc.classAt i = .copy) :
    st.placeAt arch i =
      st.manager.getVaddr .data + st.reloc.copyAt st.symtab.getDataContent.length i := by
  unfold WriteState.placeAt
  rw [h]

/-- The section of every class is one with an address. -/
theorem kind_mem (writer : DylibWriter) (u : Unplaced) (c : RelocClass) :
    c.kind ∈ (cores u.sizeOf writer.arch.isRela writer.arch.is64
      (!u.symtab.getTlsContent.isEmpty)).map Prod.fst ∧ c.kind.isAlloc = true := by
  cases c <;> exact ⟨by simp [cores, RelocClass.kind], rfl⟩

/-- No two relocations patch one place. -/
theorem places_apart {placed : ElfLayout} (hp : Prepared writer st placed)
    (hc : Created writer rawRelocs listed u) (hs : Steps writer order u st header a₁ a₂ a₃)
    {i j : Nat} {r r' : Reloc} (hij : i < j) (hi : st.reloc.relocs[i]? = some r)
    (hj : st.reloc.relocs[j]? = some r') :
    st.placeAt writer.arch i + st.placeLen writer.arch i r ≤ st.placeAt writer.arch j ∨
      st.placeAt writer.arch j + st.placeLen writer.arch j r' ≤ st.placeAt writer.arch i := by
  by_cases hkind : (st.reloc.classAt i).kind = (st.reloc.classAt j).kind
  · left
    by_cases hcopy : st.reloc.classAt i = .copy
    · have hcopy' : st.reloc.classAt j = .copy := by
        rw [hcopy] at hkind
        cases hclass : st.reloc.classAt j <;> rw [hclass] at hkind <;>
          first | rfl | exact absurd hkind (by decide)
      have hsym : (st.reloc.relocs.map Reloc.symSize)[i]? = some r.symSize := by
        rw [List.getElem?_map, hi]
        rfl
      have hsum := sum_take_add_le hsym hij
      rw [← List.map_take, ← List.map_take] at hsum
      rw [placeAt_copy hcopy, placeAt_copy hcopy', WriteState.placeLen, if_pos hcopy,
        RelocMetaData.copyAt, RelocMetaData.copyAt]
      omega
    · have hcopy' : st.reloc.classAt j ≠ .copy := by
        intro hclass
        rw [hclass] at hkind
        cases hclass : st.reloc.classAt i <;> rw [hclass] at hkind hcopy <;>
          first | exact hcopy rfl | exact absurd hkind (by decide)
      have hslot := Nat.mul_le_mul_right writer.arch.wordSize (slot_lt hij hcopy hcopy' hkind)
      rw [Nat.succ_mul] at hslot
      rw [placeAt_slot hcopy, placeAt_slot hcopy', WriteState.placeLen, if_neg hcopy, hkind]
      omega
  · obtain ⟨hlo, hhi⟩ := place_inside hc hs hi
    obtain ⟨hlo', hhi'⟩ := place_inside hc hs hj
    have hmem := kind_mem writer u
    have happart := sections_apart hp hc hs (hmem _).1 (hmem _).1 (hmem _).2 (hmem _).2 hkind
    omega

end File

end ElfLoader.GenElf
