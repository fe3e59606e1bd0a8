import ElfLoader.GenElf.Output

/-! # Generated files are well formed

No two parts of the file share a byte, every loaded section lies in one segment, the
one with its access, and the segments share no page.
-/

namespace ElfLoader.GenElf

open ByteMemory Splice Placement

section Spec

variable (w pageSize : Nat) (file : List UInt8)

/-- The parts of the file: where they start and how long they are. -/
def fileParts : List (Nat × Nat) :=
  let ehdr := fileHeader w file
  [(0, ehdr.eEhsize.toNat), (ehdr.ePhoff.toNat, ehdr.ePhentsize.toNat * ehdr.ePhnum.toNat)] ++
    (sectionHeaders w file).map (fun shdr => (shdr.shOffset.toNat, shdr.shSize.toNat)) ++
    [(ehdr.eShoff.toNat, ehdr.eShentsize.toNat * ehdr.eShnum.toNat)]

/-- The `PT_LOAD` segments. -/
def loads : List (ElfPhdr w) :=
  (programHeaders w file).filter fun p => p.pType = ElfLoader.ptLoad

variable {w}

def ElfShdr.IsAlloc (shdr : ElfShdr w) : Prop :=
  shdr.shFlags &&& BitVec.ofNat w ElfLoader.shfAlloc ≠ 0

/-- The addresses of the section are those of a part of the segment. -/
def ElfPhdr.Holds (p : ElfPhdr w) (shdr : ElfShdr w) : Prop :=
  p.pVaddr.toNat ≤ shdr.shAddr.toNat ∧
    shdr.shAddr.toNat + shdr.shSize.toNat ≤ p.pVaddr.toNat + p.pMemsz.toNat

instance (p : ElfPhdr w) (shdr : ElfShdr w) : Decidable (ElfPhdr.Holds p shdr) :=
  inferInstanceAs (Decidable (_ ∧ _))

/-- The addresses of the pages of a segment. -/
def ElfPhdr.pageRange (p : ElfPhdr w) : Set Nat :=
  Set.Ico (p.pVaddr.toNat / pageSize * pageSize) (up (p.pVaddr.toNat + p.pMemsz.toNat) pageSize)

variable (w)

/-- What a loader may rely on in a file, read with the parsers of this one. -/
structure WellFormed : Prop where
  inside : ∀ part ∈ fileParts w file, part.1 + part.2 ≤ file.length
  disjoint : (fileParts w file).Pairwise fun a b =>
    Disjoint (Set.Ico a.1 (a.1 + a.2)) (Set.Ico b.1 (b.1 + b.2))
  aligned : ∀ shdr ∈ sectionHeaders w file, ElfShdr.IsAlloc shdr →
    shdr.shAddralign.toNat ∣ shdr.shAddr.toNat
  loaded : ∀ shdr ∈ sectionHeaders w file, ElfShdr.IsAlloc shdr → shdr.shSize ≠ 0 →
    ∃ p, (loads w file).filter (fun p => ElfPhdr.Holds p shdr) = [p] ∧
      segmentProt p.pFlags = sectionProt shdr.shFlags ∧
      shdr.shAddr.toNat + p.pOffset.toNat = shdr.shOffset.toNat + p.pVaddr.toNat
  pagesApart : (loads w file).Pairwise fun p q =>
    Disjoint (ElfPhdr.pageRange pageSize p) (ElfPhdr.pageRange pageSize q)

end Spec

/-! ## Access and alignment -/

theorem isAlloc_iff {w : Nat} (hw : w = 64 ∨ w = 32) (map : SectionKind.Map) (h : SectionHeader) :
    ElfShdr.IsAlloc (h.elfShdr w map) ↔ h.shtype.isAlloc = true := by
  have hkind : ∀ kind : SectionKind,
      (BitVec.ofNat w kind.flags.toNat &&& BitVec.ofNat w ElfLoader.shfAlloc ≠ 0) ↔
        kind.isAlloc = true := by
    rcases hw with rfl | rfl <;> intro kind <;> cases kind <;> decide
  exact hkind h.shtype

theorem prot_eq {w : Nat} (hw : w = 64 ∨ w = 32) {kind : SectionKind} {g : Nat}
    (h : kind.group = some g) : segmentProt (UInt32.ofBitVec (groupFlags g)) =
      sectionProt (BitVec.ofNat w kind.flags.toNat) := by
  have hkind : ∀ kind : SectionKind, kind.group.isSome →
      segmentProt (UInt32.ofBitVec (groupFlags (kind.group.getD 0))) =
        sectionProt (BitVec.ofNat w kind.flags.toNat) := by
    rcases hw with rfl | rfl <;> intro kind <;> cases kind <;> decide
  have hg := hkind kind (by rw [h]; rfl)
  rwa [h] at hg

theorem addralign_dvd {a k : Nat} (ha : a ∈ [1, 4, 8, 16]) (hle : a ≤ 2 ^ k) : a ∣ 2 ^ k := by
  have hpow : ∃ j, a = 2 ^ j := by
    simp only [List.mem_cons, List.not_mem_nil, or_false] at ha
    rcases ha with rfl | rfl | rfl | rfl
    exacts [⟨0, rfl⟩, ⟨2, rfl⟩, ⟨3, rfl⟩, ⟨4, rfl⟩]
  obtain ⟨j, rfl⟩ := hpow
  exact Nat.pow_dvd_pow 2 ((Nat.pow_le_pow_iff_right (by decide)).mp hle)

theorem group_of_isAlloc {kind : SectionKind} (h : kind.isAlloc = true) :
    ∃ g < 3, kind.group = some g := by
  have hkind : ∀ kind : SectionKind, kind.isAlloc = true →
      kind.group = some 0 ∨ kind.group = some 1 ∨ kind.group = some 2 := by
    intro kind
    cases kind <;> decide
  rcases hkind kind h with hg | hg | hg
  exacts [⟨0, by decide, hg⟩, ⟨1, by decide, hg⟩, ⟨2, by decide, hg⟩]

/-! ## The fields as numbers -/

section Main

variable {writer : DylibWriter} {st : WriteState} {layout : ElfLayout}
  {phdrs : List ProgramHeader} {file : List UInt8}

/-- The file ends before the addresses do. -/
def Fits (writer : DylibWriter) (st : WriteState) (file : List UInt8) : Prop :=
  st.layout.fileOff ≤ file.length ∧ writer.config.baseAddr + file.length < 2 ^ writer.arch.bits

theorem header_view (hp : Prepared writer st layout) (hfits : Fits writer st file) {sec : Section}
    (hsec : sec ∈ st.manager.shdrs) (map : SectionKind.Map) :
    (sec.header.elfShdr writer.arch.bits map).shAddr.toNat = sec.header.addr ∧
      (sec.header.elfShdr writer.arch.bits map).shOffset.toNat = sec.offset ∧
      (sec.header.elfShdr writer.arch.bits map).shSize.toNat = sec.size ∧
      (sec.header.elfShdr writer.arch.bits map).shAddralign.toNat = sec.header.addralign := by
  obtain ⟨hend, hsum⟩ := hfits
  have hin := hp.laidOut.ascending.bounds sec hsec
  have haddr := hp.laidOut.addr sec hsec
  rw [hp.baseAddr] at haddr
  have halign := hp.addralign sec hsec
  have hbits : 16 < 2 ^ writer.arch.bits := by cases writer.arch <;> decide
  have hsmall : sec.header.addralign ≤ 16 := by
    simp only [List.mem_cons, List.not_mem_nil, or_false] at halign
    omega
  refine ⟨Nat.mod_eq_of_lt ?_, Nat.mod_eq_of_lt ?_, Nat.mod_eq_of_lt ?_, Nat.mod_eq_of_lt ?_⟩
  · rw [haddr]
    split
    · omega
    · omega
  · change sec.offset < _
    omega
  · change sec.size < _
    omega
  · omega

theorem load_view (hp : Prepared writer st layout) (hfits : Fits writer st file) {g : Nat}
    {p : ProgramHeader} (hcovers : Covers layout st.manager.shdrs g p) :
    (p.elfPhdr writer.arch.bits).pVaddr.toNat = p.pVaddr ∧
      (p.elfPhdr writer.arch.bits).pOffset.toNat = p.pOffset ∧
      (p.elfPhdr writer.arch.bits).pMemsz.toNat = p.pMemsz := by
  obtain ⟨hend, hsum⟩ := hfits
  obtain ⟨sec, hsec, -, hends⟩ := hcovers.ends
  have hin := hp.laidOut.ascending.bounds sec hsec
  have hvaddr := hcovers.vaddr
  rw [hp.baseAddr] at hvaddr
  refine ⟨Nat.mod_eq_of_lt ?_, Nat.mod_eq_of_lt ?_, Nat.mod_eq_of_lt ?_⟩
  · omega
  · omega
  · omega

/-! ## The parts of the file -/

theorem parts_eq (hp : Prepared writer st layout) (hw : Written writer st phdrs file)
    (hfits : Fits writer st file) :
    fileParts writer.arch.bits file =
      [(0, ehdrSize writer.arch.is64),
          (ehdrSize writer.arch.is64, phdrSize writer.arch.is64 * st.manager.getPhnum)] ++
        ((0, 0) :: st.manager.shdrs.map fun sec => (sec.offset, sec.size)) ++
        [(st.layout.fileOff, shdrSize writer.arch.is64 * st.headers.length)] := by
  obtain ⟨shstrndx, hehdr⟩ := hw.fileHeader
  have hesize : ehdrSize writer.arch.is64 < 2 ^ 16 := by cases writer.arch <;> decide
  obtain ⟨hpsize, hssize⟩ := recordSizes_lt writer.arch
  have hphnum := getPhnum_le st.manager
  have hcount := hp.count
  have heh : (writer.elfEhdr st shstrndx).eEhsize.toNat = ehdrSize writer.arch.is64 :=
    Nat.mod_eq_of_lt hesize
  have hphoff : (writer.elfEhdr st shstrndx).ePhoff.toNat = ehdrSize writer.arch.is64 :=
    Nat.mod_eq_of_lt (ehdrSize_lt writer.arch)
  have hphent : (writer.elfEhdr st shstrndx).ePhentsize.toNat = phdrSize writer.arch.is64 :=
    Nat.mod_eq_of_lt hpsize
  have hphnum' : (writer.elfEhdr st shstrndx).ePhnum.toNat = st.manager.getPhnum :=
    Nat.mod_eq_of_lt (by omega)
  have hshoff : (writer.elfEhdr st shstrndx).eShoff.toNat = st.layout.fileOff := by
    have hend := hfits.1
    have hsum := hfits.2
    exact Nat.mod_eq_of_lt (by omega)
  have hshent : (writer.elfEhdr st shstrndx).eShentsize.toNat = shdrSize writer.arch.is64 :=
    Nat.mod_eq_of_lt hssize
  have hshnum : (writer.elfEhdr st shstrndx).eShnum.toNat = st.headers.length := by
    rw [WriteState.headers, List.length_cons, List.length_map]
    exact Nat.mod_eq_of_lt (by omega)
  have hsecs : (sectionHeaders writer.arch.bits file).map
      (fun shdr => (shdr.shOffset.toNat, shdr.shSize.toNat)) =
        (0, 0) :: st.manager.shdrs.map fun sec => (sec.offset, sec.size) := by
    rw [hw.sectionHeaders, WriteState.headers, List.map_map, List.map_cons, List.map_map]
    refine congrArg₂ List.cons (Prod.ext (Nat.zero_mod _) (Nat.zero_mod _)) ?_
    apply List.map_congr_left
    intro sec hsec
    obtain ⟨-, hoffset, hsize, -⟩ := header_view hp hfits hsec st.manager.getShdrMap
    exact Prod.ext hoffset hsize
  unfold fileParts
  rw [hehdr]
  dsimp only
  rw [hsecs, heh, hphoff, hphent, hphnum', hshoff, hshent, hshnum]

/-- The parts in the order they stand in the file, behind the empty part of the first
section header. -/
def sortedParts (writer : DylibWriter) (st : WriteState) : List (Nat × Nat) :=
  (0, 0) :: ([(0, ehdrSize writer.arch.is64),
      (ehdrSize writer.arch.is64, phdrSize writer.arch.is64 * st.manager.getPhnum)] ++
    (st.manager.shdrs.map fun sec => (sec.offset, sec.size)) ++
    [(st.layout.fileOff, shdrSize writer.arch.is64 * st.headers.length)])

theorem parts_ascending (hp : Prepared writer st layout) (hw : Written writer st phdrs file) :
    Ascending Prod.fst Prod.snd 0 file.length (sortedParts writer st) := by
  have hsecs : Ascending Prod.fst Prod.snd layout.fileOff st.layout.fileOff
      (st.manager.shdrs.map fun sec => (sec.offset, sec.size)) :=
    Ascending.map_iff.mpr hp.laidOut.ascending
  have hheaders : Ascending Prod.fst Prod.snd 0 layout.fileOff
      [(0, ehdrSize writer.arch.is64),
        (ehdrSize writer.arch.is64, phdrSize writer.arch.is64 * st.manager.getPhnum)] :=
    ⟨Nat.le_refl _, Nat.le_of_eq (Nat.zero_add _), hp.behindHeaders⟩
  refine ⟨Nat.le_refl _, ?_⟩
  exact (hheaders.append hsecs).append ⟨Nat.le_refl _, hw.fits⟩

theorem parts_perm (hp : Prepared writer st layout) (hw : Written writer st phdrs file)
    (hfits : Fits writer st file) :
    (fileParts writer.arch.bits file).Perm (sortedParts writer st) := by
  rw [parts_eq hp hw hfits, sortedParts, List.append_assoc, List.append_assoc]
  exact List.perm_middle

/-! ## The segments -/

theorem loads_eq (hw : Written writer st phdrs file) :
    loads writer.arch.bits file =
      (phdrs.filter fun p => p.pType = ptLoad).map fun p => p.elfPhdr writer.arch.bits := by
  have htype : ∀ p : ProgramHeader,
      decide ((p.elfPhdr writer.arch.bits).pType = ElfLoader.ptLoad) = decide (p.pType = ptLoad) := by
    intro p
    exact decide_eq_decide.mpr UInt32.toBitVec_inj.symm
  rw [loads, hw.programHeaders, List.filter_map]
  congr 1
  exact List.filter_congr fun p _ => htype p

theorem pageRange_disjoint (hp : Prepared writer st layout) (hfits : Fits writer st file)
    (hbase : layout.pageSize ∣ layout.baseAddr) {g g' : Nat} {p q : ProgramHeader}
    (hcp : Covers layout st.manager.shdrs g p)
    (hcq : Covers layout st.manager.shdrs g' q) (hlt : g < g') :
    Disjoint (ElfPhdr.pageRange layout.pageSize (p.elfPhdr writer.arch.bits))
      (ElfPhdr.pageRange layout.pageSize (q.elfPhdr writer.arch.bits)) := by
  obtain ⟨hpv, -, hpm⟩ := load_view hp hfits hcp
  obtain ⟨hqv, -, -⟩ := load_view hp hfits hcq
  have hapart := hp.laidOut.apart hbase hcp hcq hlt
  have hdvd : layout.pageSize ∣ q.pVaddr := by
    rw [hcq.vaddr]
    exact Nat.dvd_add hbase hcq.page
  unfold ElfPhdr.pageRange
  rw [hpv, hpm, hqv, Nat.div_mul_cancel hdvd, Set.disjoint_left]
  rintro x ⟨-, hlo⟩ ⟨hhi, -⟩
  omega

/-- Of the segments of the three groups one holds the section. -/
theorem filter_holds (hp : Prepared writer st layout) (hfits : Fits writer st file)
    (hbase : layout.pageSize ∣ layout.baseAddr) {r rx rw : ProgramHeader}
    (hr : Covers layout st.manager.shdrs 0 r) (hrx : Covers layout st.manager.shdrs 1 rx)
    (hrw : Covers layout st.manager.shdrs 2 rw) {sec : Section} (hsec : sec ∈ st.manager.shdrs)
    (halloc : sec.header.shtype.isAlloc = true) (hsize : sec.size ≠ 0)
    (map : SectionKind.Map) :
    ∃ g p, sec.group = some g ∧ Covers layout st.manager.shdrs g p ∧
      ([r, rx, rw].map fun p => p.elfPhdr writer.arch.bits).filter
        (fun p => ElfPhdr.Holds p (sec.header.elfShdr writer.arch.bits map)) =
          [p.elfPhdr writer.arch.bits] := by
  obtain ⟨haddr, -, hsz, -⟩ := header_view hp hfits hsec map
  obtain ⟨g, hlt, hg⟩ := group_of_isAlloc halloc
  have hholds : ∀ {g' : Nat} {p q : ProgramHeader}, Covers layout st.manager.shdrs g p →
      Covers layout st.manager.shdrs g' q →
        (ElfPhdr.Holds (q.elfPhdr writer.arch.bits)
          (sec.header.elfShdr writer.arch.bits map) ↔ g' = g) := by
    intro g' p q hcp hcq
    obtain ⟨hqv, -, hqm⟩ := load_view hp hfits hcq
    rw [ElfPhdr.Holds, haddr, hsz, hqv, hqm]
    exact hp.laidOut.holds_iff hbase hcp hcq hsec hg hsize
  match g, hlt with
  | 0, _ =>
      refine ⟨0, r, hg, hr, ?_⟩
      simp [hholds hr hr, hholds hr hrx, hholds hr hrw]
  | 1, _ =>
      refine ⟨1, rx, hg, hrx, ?_⟩
      simp [hholds hrx hr, hholds hrx hrx, hholds hrx hrw]
  | 2, _ =>
      refine ⟨2, rw, hg, hrw, ?_⟩
      simp [hholds hrw hr, hholds hrw hrx, hholds hrw hrw]

/-- A section of the file is one of the sections laid out, or the empty first one. -/
theorem sectionHeaders_cases (hw : Written writer st phdrs file)
    {shdr : ElfShdr writer.arch.bits} (h : shdr ∈ sectionHeaders writer.arch.bits file) :
    shdr = nullHeader.elfShdr writer.arch.bits st.manager.getShdrMap ∨
      ∃ sec ∈ st.manager.shdrs,
        shdr = sec.header.elfShdr writer.arch.bits st.manager.getShdrMap := by
  rw [hw.sectionHeaders, WriteState.headers, List.map_cons, List.mem_cons, List.map_map] at h
  rcases h with h | h
  · exact Or.inl h
  · obtain ⟨sec, hsec, rfl⟩ := List.mem_map.mp h
    exact Or.inr ⟨sec, hsec, rfl⟩

theorem alloc_section (hw : Written writer st phdrs file) {shdr : ElfShdr writer.arch.bits}
    (h : shdr ∈ sectionHeaders writer.arch.bits file) (halloc : ElfShdr.IsAlloc shdr) :
    ∃ sec ∈ st.manager.shdrs, sec.header.shtype.isAlloc = true ∧
      shdr = sec.header.elfShdr writer.arch.bits st.manager.getShdrMap := by
  rcases sectionHeaders_cases hw h with rfl | ⟨sec, hsec, rfl⟩
  · have hnull := (isAlloc_iff (bits_cases writer.arch) _ _).mp halloc
    exact absurd hnull (by decide)
  · exact ⟨sec, hsec, (isAlloc_iff (bits_cases writer.arch) _ _).mp halloc, rfl⟩

/-- The contents of the sections, in the order of the section headers. -/
def WriteState.contents (st : WriteState) : List (List UInt8) :=
  st.manager.shdrs.map fun sec => st.allocator sec.data

/-- The bytes of a section are found where its header says, and are as many. -/
def Contains {w : Nat} (file data : List UInt8) (shdr : ElfShdr w) : Prop :=
  data.length = shdr.shSize.toNat ∧ slice file shdr.shOffset.toNat data.length = data

theorem contents_found (hp : Prepared writer st layout) (hw : Written writer st phdrs file)
    (hfits : Fits writer st file) :
    List.Forall₂ (Contains file) st.contents (sectionHeaders writer.arch.bits file).tail := by
  rw [hw.sectionHeaders, WriteState.headers, List.map_cons, List.tail_cons, List.map_map,
    WriteState.contents, List.forall₂_map_left_iff, List.forall₂_map_right_iff, List.forall₂_same]
  intro sec hsec
  obtain ⟨-, hoffset, hsize, -⟩ := header_view hp hfits hsec st.manager.getShdrMap
  have hlen := hp.sized sec hsec
  refine ⟨hlen.trans hsize.symm, ?_⟩
  rw [Function.comp_apply, hoffset, hlen]
  exact hw.contents sec hsec

end Main

/-- The files of the generator are well formed, and hold the contents of all
sections. -/
theorem write_wellFormed {writer : DylibWriter} {order : HashOrder} {rawRelocs : List RelocEntry}
    {symbols : List SymbolDesc} {out : ElfWriteOutput}
    (hwrite : writer.write order rawRelocs symbols = some out)
    (hpage : ∃ k, writer.config.pageSize = 2 ^ k)
    (halign : ∀ shdr ∈ sectionHeaders writer.arch.bits out.data,
      shdr.shAddralign.toNat ≤ writer.config.pageSize)
    (hbase : writer.config.pageSize ∣ writer.config.baseAddr)
    (hsum : writer.config.baseAddr + out.data.length < 2 ^ writer.arch.bits) :
    WellFormed writer.arch.bits writer.config.pageSize out.data ∧
      ∃ st, writer.prepare order rawRelocs symbols = some st ∧
        List.Forall₂ (Contains out.data) st.contents
          (sectionHeaders writer.arch.bits out.data).tail := by
  unfold DylibWriter.write at hwrite
  simp only [Option.bind_eq_bind, Option.bind_eq_some_iff, Option.pure_def,
    Option.some.injEq] at hwrite
  obtain ⟨st, hprepare, file, hrender, rfl⟩ := hwrite
  dsimp only at halign hsum ⊢
  obtain ⟨layout, hp⟩ := prepared hprepare
  obtain ⟨-, phdrs, -, hphdrs, -⟩ := render_eq_some hrender
  have hphnum := phdrs_length hp.rSecs hp.rxSecs hp.rwSecs hp.groups hphdrs
  have hw := hp.written hrender hphdrs hphnum (by omega)
  have hfits : Fits writer st file := ⟨Nat.le_trans (Nat.le_add_right _ _) hw.fits, hsum⟩
  -- every alignment divides the page size
  have hdvd : ∀ sec ∈ st.manager.shdrs, sec.header.addralign ∣ layout.pageSize := by
    intro sec hsec
    obtain ⟨k, hk⟩ := hpage
    obtain ⟨-, -, -, hview⟩ := header_view hp hfits hsec st.manager.getShdrMap
    have hle := halign (sec.header.elfShdr writer.arch.bits st.manager.getShdrMap) (by
      rw [hw.sectionHeaders, WriteState.headers]
      exact List.mem_map_of_mem (List.mem_cons_of_mem _ (List.mem_map_of_mem hsec)))
    rw [hview, hk] at hle
    rw [hp.pageSize, hk]
    exact addralign_dvd (hp.addralign sec hsec) hle
  rw [← hp.pageSize, ← hp.baseAddr] at hbase
  rw [← hp.pageSize] at hphdrs
  obtain ⟨r, rx, rw, hloads, hr, hrx, hrw⟩ :=
    hp.laidOut.loads hp.rSecs hp.rxSecs hp.rwSecs hdvd hp.groups hphdrs
  have hlist := loads_eq hw
  rw [hloads] at hlist
  have hparts := parts_ascending hp hw
  have hperm := parts_perm hp hw hfits
  refine ⟨⟨fun part hpart => ?_, ?_, fun shdr hshdr halloc => ?_,
    fun shdr hshdr halloc hsize => ?_, ?_⟩, st, hprepare, contents_found hp hw hfits⟩
  · exact (hparts.bounds part (hperm.mem_iff.mp hpart)).2
  · exact (hperm.pairwise_iff fun h => h.symm).mpr hparts.disjoint
  · obtain ⟨sec, hsec, hkind, rfl⟩ := alloc_section hw hshdr halloc
    obtain ⟨haddr, -, -, hview⟩ := header_view hp hfits hsec st.manager.getShdrMap
    rw [haddr, hview, hp.laidOut.addr sec hsec, if_pos hkind]
    exact Nat.dvd_add (Nat.dvd_trans (hdvd sec hsec) hbase) (hp.laidOut.aligned sec hsec).2
  · obtain ⟨sec, hsec, hkind, rfl⟩ := alloc_section hw hshdr halloc
    obtain ⟨haddr, hoffset, hsz, -⟩ := header_view hp hfits hsec st.manager.getShdrMap
    have hne : sec.size ≠ 0 := by
      intro hzero
      rw [hzero] at hsz
      exact hsize (BitVec.eq_of_toNat_eq hsz)
    obtain ⟨g, p, hg, hcovers, hfilter⟩ :=
      filter_holds hp hfits hbase hr hrx hrw hsec hkind hne st.manager.getShdrMap
    obtain ⟨hpv, hpo, -⟩ := load_view hp hfits hcovers
    refine ⟨p.elfPhdr writer.arch.bits, by rw [hlist]; exact hfilter, ?_, ?_⟩
    · change segmentProt (UInt32.ofBitVec p.pFlags) = _
      rw [hcovers.flags]
      exact prot_eq (bits_cases writer.arch) hg
    · have hvaddr := hcovers.vaddr
      rw [haddr, hpo, hoffset, hpv, hp.laidOut.addr_of_group hsec hg]
      omega
  · rw [hlist, ← hp.pageSize]
    refine List.Pairwise.cons ?_ (List.Pairwise.cons ?_ (List.pairwise_singleton _ _))
    · intro q hq
      rcases List.mem_cons.mp hq with rfl | hq
      · exact pageRange_disjoint hp hfits hbase hr hrx (by decide)
      · rw [List.mem_singleton.mp hq]
        exact pageRange_disjoint hp hfits hbase hr hrw (by decide)
    · intro q hq
      rw [List.mem_singleton.mp hq]
      exact pageRange_disjoint hp hfits hbase hrx hrw (by decide)

section Sample

def insertionOrder : HashOrder where
  iter := id
  perm := fun _ => List.Perm.refl _

/-- Pages of 16 bytes, to keep the file small. -/
def sampleWriter : DylibWriter where
  arch := .x86_64
  config := { baseAddr := 0x40, pageSize := 16, ifuncResolverVal := none }

def sampleRelocs : List RelocEntry := [RelocEntry.jumpSlot (ascii "f") .x86_64]

def sampleSymbols : List SymbolDesc :=
  [SymbolDesc.undefinedFunc (ascii "f"), SymbolDesc.globalObject (ascii "x") [1, 2, 3]]

theorem sample_wellFormed :
    ∃ out, sampleWriter.write insertionOrder sampleRelocs sampleSymbols = some out ∧
      WellFormed 64 16 out.data := by
  have hruns : (match sampleWriter.write insertionOrder sampleRelocs sampleSymbols with
    | some out => (sectionHeaders 64 out.data).all (fun shdr => shdr.shAddralign.toNat ≤ 16) &&
        decide (out.data.length < 2 ^ 32)
    | none => false) = true := by decide +kernel
  cases hwrite : sampleWriter.write insertionOrder sampleRelocs sampleSymbols with
  | none =>
      rw [hwrite] at hruns
      cases hruns
  | some out =>
      rw [hwrite, Bool.and_eq_true] at hruns
      obtain ⟨haligns, hlen⟩ := hruns
      refine ⟨out, rfl, (write_wellFormed hwrite ⟨4, rfl⟩ (fun shdr hshdr => ?_) ⟨4, rfl⟩ ?_).1⟩
      · exact of_decide_eq_true (List.all_eq_true.mp haligns shdr hshdr)
      · have hlt := of_decide_eq_true hlen
        change 0x40 + out.data.length < 2 ^ 64
        omega

end Sample

end ElfLoader.GenElf
