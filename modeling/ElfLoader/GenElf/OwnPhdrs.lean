import ElfLoader.GenElf.WellFormed
import ElfLoader.Image.Phdrs

/-! # The program headers of a generated file

The table is given the address it has in a file that is loaded at zero; the segment
with the table starts at the base address.
-/

namespace ElfLoader.GenElf

open ByteMemory Splice Placement

/-- Through its `PT_PHDR` header the loader finds the table of the file. -/
structure Locates (w : Nat) (file : List UInt8) (phdr load : ElfPhdr w) : Prop where
  start : load.pVaddr.toNat ≤ phdr.pVaddr.toNat
  stop : phdr.pVaddr.toNat + phdr.pMemsz.toNat ≤ load.pVaddr.toNat + load.pMemsz.toNat
  distance : phdr.pVaddr - phdr.pOffset = load.pVaddr - load.pOffset
  view : ∀ (segs : ElfSegments w) (m : Bytes w), load.ContentLoaded file segs.base m →
    (ElfPhdrs.mmap (segs.getSlice (ElfLoader.phdrSize w) phdr.pVaddr phdr.pMemsz)).asSlice m =
      programHeaders w file

/-- The `PT_PHDR` header of the file and its first `PT_LOAD` agree. -/
def LocatesPhdrs (w : Nat) (file : List UInt8) : Prop :=
  ∃ phdr load, (programHeaders w file).find? (fun p => p.pType = ElfLoader.ptPhdr) = some phdr ∧
    (loads w file).head? = some load ∧ Locates w file phdr load

/-- The header `write_phdrs` writes first. -/
def tableHeader (manager : ShdrManager) (is64 : Bool) : ProgramHeader where
  pType := ptPhdr
  pFlags := pfR
  pOffset := ehdrSize is64
  pVaddr := ehdrSize is64
  pFilesz := phdrSize is64 * manager.getPhnum
  pMemsz := phdrSize is64 * manager.getPhnum
  pAlign := 8

section Front

variable {writer : DylibWriter} {st : WriteState} {layout : ElfLayout}
  {phdrs : List ProgramHeader} {file : List UInt8}

/-- The read-only segment: from the start of the file past the headers. -/
structure FirstLoad (writer : DylibWriter) (st : WriteState) (r : ProgramHeader) : Prop where
  type : r.pType = ptLoad
  offset : r.pOffset = 0
  vaddr : r.pVaddr = writer.config.baseAddr
  memsz : r.pMemsz = r.pFilesz
  headers : ehdrSize writer.arch.is64 + phdrSize writer.arch.is64 * st.manager.getPhnum ≤ r.pFilesz
  small : r.pFilesz < 2 ^ 64
  inside : r.pFilesz ≤ st.layout.fileOff

theorem Prepared.firstLoad (hp : Prepared writer st layout) {pageSize : Nat}
    {ps : List ProgramHeader}
    (h : loadSegment (st.manager.shdrs.filter fun sec => sec.group = some 0) pfR true pageSize =
      some ps) : ∃ r, ps = [r] ∧ FirstLoad writer st r := by
  obtain ⟨sec, hsec, hgroup⟩ := hp.groups 0 (by decide)
  have hne : (st.manager.shdrs.filter fun sec => sec.group = some 0) ≠ [] :=
    List.ne_nil_of_mem (List.mem_filter.mpr ⟨hsec, decide_eq_true hgroup⟩)
  have hfirst := List.head?_eq_some_head hne
  have hlast := List.getLast?_eq_some_getLast hne
  obtain ⟨hfirstMem, hfirstGroup⟩ := List.mem_filter.mp (List.mem_of_head? hfirst)
  obtain ⟨hlastMem, -⟩ := List.mem_filter.mp (List.mem_of_getLast? hlast)
  have haddr := hp.laidOut.addr_of_group hfirstMem (of_decide_eq_true hfirstGroup)
  obtain ⟨o, rfl, -, hsmall, rfl⟩ := loadSegment_eq_some hfirst hlast haddr h
  have hbehind := hp.behindHeaders
  have hlow := (hp.laidOut.ascending.bounds _ hfirstMem).1
  have hhigh := (hp.laidOut.ascending.bounds _ hlastMem).2
  have hin := (hp.laidOut.enclosed hfirst hlast hfirstMem (of_decide_eq_true hfirstGroup)).2
  refine ⟨_, rfl, rfl, rfl, ?_, rfl, ?_, ?_, ?_⟩
  · exact (Nat.add_zero _).trans hp.baseAddr
  · simp only [if_true, Nat.sub_zero]
    omega
  · simp only [if_true, Nat.sub_zero]
    exact hsmall
  · simp only [if_true, Nat.sub_zero]
    exact hhigh

theorem Prepared.front (hp : Prepared writer st layout)
    (hphdrs : st.manager.phdrs writer.arch.is64 writer.config.pageSize = some phdrs) :
    ∃ r rest, phdrs = tableHeader st.manager writer.arch.is64 :: r :: rest ∧
      FirstLoad writer st r := by
  unfold ShdrManager.phdrs at hphdrs
  rw [hp.rSecs, hp.rxSecs, hp.rwSecs] at hphdrs
  simp only [Option.bind_eq_bind, Option.bind_some, Option.bind_eq_some_iff, Option.pure_def,
    Option.some.injEq] at hphdrs
  obtain ⟨rs, hrs, rxs, -, rws, -, rfl⟩ := hphdrs
  obtain ⟨r, rfl, hr⟩ := hp.firstLoad hrs
  exact ⟨r, _, rfl, hr⟩

/-- The table and the read-only segment are those the loader looks at. -/
theorem front_found (hprograms : programHeaders writer.arch.bits file =
      phdrs.map fun p => p.elfPhdr writer.arch.bits) {r : ProgramHeader}
    {rest : List ProgramHeader}
    (hphdrs : phdrs = tableHeader st.manager writer.arch.is64 :: r :: rest)
    (hr : FirstLoad writer st r) :
    (programHeaders writer.arch.bits file).find? (fun p => p.pType = ElfLoader.ptPhdr) =
        some ((tableHeader st.manager writer.arch.is64).elfPhdr writer.arch.bits) ∧
      (loads writer.arch.bits file).head? = some (r.elfPhdr writer.arch.bits) := by
  have htype : (r.elfPhdr writer.arch.bits).pType = ElfLoader.ptLoad := by
    change UInt32.ofBitVec r.pType = _
    rw [hr.type]
    rfl
  have htable : ((tableHeader st.manager writer.arch.is64).elfPhdr writer.arch.bits).pType ≠
      ElfLoader.ptLoad := by
    change ElfLoader.ptPhdr ≠ _
    decide
  rw [loads, hprograms, hphdrs, List.map_cons, List.map_cons]
  constructor
  · exact List.find?_cons_of_pos rfl
  · rw [List.filter_cons_of_neg (by simpa using htable),
      List.filter_cons_of_pos (by simpa using htype)]
    rfl

theorem tableHeader_view (writer : DylibWriter) (st : WriteState) :
    ((tableHeader st.manager writer.arch.is64).elfPhdr writer.arch.bits).pVaddr.toNat =
        ehdrSize writer.arch.is64 ∧
      ((tableHeader st.manager writer.arch.is64).elfPhdr writer.arch.bits).pMemsz.toNat =
        phdrSize writer.arch.is64 * st.manager.getPhnum := by
  refine ⟨Nat.mod_eq_of_lt (ehdrSize_lt writer.arch), Nat.mod_eq_of_lt ?_⟩
  have hphnum := getPhnum_le st.manager
  have hsize : phdrSize writer.arch.is64 ≤ 56 := by cases writer.arch <;> decide
  have hword : 2 ^ 32 ≤ 2 ^ writer.arch.bits := by cases writer.arch <;> decide
  have hmul := Nat.mul_le_mul hsize hphnum
  change phdrSize writer.arch.is64 * st.manager.getPhnum < _
  omega

/-- The two distances are zero and the base address. -/
theorem distance_iff {r : ProgramHeader} (hr : FirstLoad writer st r) :
    ((tableHeader st.manager writer.arch.is64).elfPhdr writer.arch.bits).pVaddr -
          ((tableHeader st.manager writer.arch.is64).elfPhdr writer.arch.bits).pOffset =
        (r.elfPhdr writer.arch.bits).pVaddr - (r.elfPhdr writer.arch.bits).pOffset ↔
      2 ^ writer.arch.bits ∣ writer.config.baseAddr := by
  have htable : ((tableHeader st.manager writer.arch.is64).elfPhdr writer.arch.bits).pVaddr -
      ((tableHeader st.manager writer.arch.is64).elfPhdr writer.arch.bits).pOffset = 0 :=
    BitVec.sub_self _
  have hload : (r.elfPhdr writer.arch.bits).pVaddr - (r.elfPhdr writer.arch.bits).pOffset =
      BitVec.ofNat writer.arch.bits writer.config.baseAddr := by
    change BitVec.ofNat _ r.pVaddr - BitVec.ofNat _ r.pOffset = _
    rw [hr.vaddr, hr.offset]
    exact BitVec.sub_zero _
  rw [htable, hload, eq_comm, ← BitVec.toNat_inj, BitVec.toNat_ofNat, Nat.dvd_iff_mod_eq_zero]
  rfl

theorem programHeaders_eq_phdrTable {w : Nat} {file : List UInt8}
    (hentsize : (fileHeader w file).ePhentsize.toNat = ElfLoader.phdrSize w) :
    programHeaders w file = (fileHeader w file).phdrTable file := by
  unfold programHeaders Ehdr.phdrTable Ehdr.phdrTableSize
  dsimp only
  rw [hentsize, Nat.mul_comm]

/-- What the file header says of the table. -/
theorem elfEhdr_table (writer : DylibWriter) (st : WriteState) (shstrndx : Nat) :
    (writer.elfEhdr st shstrndx).ePhentsize.toNat = ElfLoader.phdrSize writer.arch.bits ∧
      (writer.elfEhdr st shstrndx).phdrTableSize =
        phdrSize writer.arch.is64 * st.manager.getPhnum := by
  obtain ⟨-, hpsize, -⟩ := sizes_eq writer.arch
  have hphnum := getPhnum_le st.manager
  have hnum : (writer.elfEhdr st shstrndx).ePhnum.toNat = st.manager.getPhnum :=
    Nat.mod_eq_of_lt (by omega)
  rw [Ehdr.phdrTableSize, hnum, ← hpsize, Nat.mul_comm]
  exact ⟨Nat.mod_eq_of_lt (recordSizes_lt writer.arch).1, rfl⟩

/-- At base address zero the table is where its header says. -/
theorem locates_of_base (hp : Prepared writer st layout) (hrender : writer.render st = some file)
    (hphdrs : st.manager.phdrs writer.arch.is64 writer.config.pageSize = some phdrs)
    (hphnum : phdrs.length = st.manager.getPhnum) {r : ProgramHeader}
    (hr : FirstLoad writer st r) (hsize : r.pFilesz < 2 ^ writer.arch.bits)
    (hbase : 2 ^ writer.arch.bits ∣ writer.config.baseAddr) :
    Locates writer.arch.bits file
      ((tableHeader st.manager writer.arch.is64).elfPhdr writer.arch.bits)
      (r.elfPhdr writer.arch.bits) := by
  obtain ⟨shstrndx, hehdr, -⟩ := hp.headers hrender hphdrs hphnum
  obtain ⟨hentsize, htableSize⟩ := elfEhdr_table writer st shstrndx
  obtain ⟨hvaddr, hmemsz⟩ := tableHeader_view writer st
  have hrvaddr : (r.elfPhdr writer.arch.bits).pVaddr.toNat = 0 := by
    change r.pVaddr % _ = 0
    rw [hr.vaddr]
    exact Nat.mod_eq_zero_of_dvd hbase
  have hroffset : (r.elfPhdr writer.arch.bits).pOffset.toNat = 0 := by
    change r.pOffset % _ = 0
    rw [hr.offset, Nat.zero_mod]
  have hrfilesz : (r.elfPhdr writer.arch.bits).pFilesz.toNat = r.pFilesz := Nat.mod_eq_of_lt hsize
  have hrmemsz : (r.elfPhdr writer.arch.bits).pMemsz.toNat = r.pFilesz := by
    change r.pMemsz % _ = _
    rw [hr.memsz, Nat.mod_eq_of_lt hsize]
  have hheaders := hr.headers
  have hdistance := (distance_iff hr).mpr hbase
  refine ⟨?_, ?_, hdistance, fun segs m hload => ?_⟩
  · rw [hrvaddr]
    exact Nat.zero_le _
  · rw [hvaddr, hmemsz, hrvaddr, hrmemsz]
    omega
  · rw [programHeaders_eq_phdrTable (by rw [hehdr]; exact hentsize), hehdr]
    refine ImageBuilder.isTable_asSlice [r.elfPhdr writer.arch.bits]
      ⟨rfl, hmemsz.trans htableSize.symm, _, List.mem_singleton.mpr rfl, ?_, hdistance, ?_, ?_⟩
      fun ph hph _ => ?_
    · change UInt32.ofBitVec r.pType = _
      rw [hr.type]
      rfl
    · rw [hroffset]
      exact Nat.zero_le _
    · change (BitVec.ofNat writer.arch.bits (ehdrSize writer.arch.is64)).toNat + _ ≤ _
      rw [hmemsz, hroffset, hrfilesz, BitVec.toNat_ofNat, Nat.mod_eq_of_lt (ehdrSize_lt writer.arch)]
      omega
    · rw [List.mem_singleton.mp hph]
      exact hload

end Front

section Write

variable {writer : DylibWriter} {order : HashOrder} {rawRelocs : List RelocEntry}
  {symbols : List SymbolDesc} {out : ElfWriteOutput}

theorem write_front (hwrite : writer.write order rawRelocs symbols = some out) :
    ∃ st layout phdrs r, Prepared writer st layout ∧ writer.render st = some out.data ∧
      st.manager.phdrs writer.arch.is64 writer.config.pageSize = some phdrs ∧
      phdrs.length = st.manager.getPhnum ∧ FirstLoad writer st r ∧
      (programHeaders writer.arch.bits out.data).find? (fun p => p.pType = ElfLoader.ptPhdr) =
        some ((tableHeader st.manager writer.arch.is64).elfPhdr writer.arch.bits) ∧
      (loads writer.arch.bits out.data).head? = some (r.elfPhdr writer.arch.bits) := by
  unfold DylibWriter.write at hwrite
  simp only [Option.bind_eq_bind, Option.bind_eq_some_iff, Option.pure_def,
    Option.some.injEq] at hwrite
  obtain ⟨st, hprepare, file, hrender, rfl⟩ := hwrite
  dsimp only
  obtain ⟨layout, hp⟩ := prepared hprepare
  obtain ⟨-, phdrs, -, hphdrs, -⟩ := render_eq_some hrender
  have hphnum := phdrs_length hp.rSecs hp.rxSecs hp.rwSecs hp.groups hphdrs
  obtain ⟨shstrndx, -, hprograms⟩ := hp.headers hrender hphdrs hphnum
  obtain ⟨r, rest, hfront, hr⟩ := hp.front hphdrs
  obtain ⟨hphdr, hload⟩ := front_found hprograms hfront hr
  exact ⟨st, layout, phdrs, r, hp, hrender, hphdrs, hphnum, hr, hphdr, hload⟩

theorem base_dvd_of_locatesPhdrs (hwrite : writer.write order rawRelocs symbols = some out)
    (h : LocatesPhdrs writer.arch.bits out.data) :
    2 ^ writer.arch.bits ∣ writer.config.baseAddr := by
  obtain ⟨st, -, -, r, -, -, -, -, hr, hphdr, hload⟩ := write_front hwrite
  obtain ⟨phdr, load, hphdr', hload', hlocates⟩ := h
  rw [hphdr] at hphdr'
  rw [hload] at hload'
  cases hphdr'
  cases hload'
  exact (distance_iff hr).mp hlocates.distance

/-- A file of the generator locates its program headers when it is loaded at zero.
The size of a 32-bit file has to be a word. -/
theorem locatesPhdrs_iff (hwrite : writer.write order rawRelocs symbols = some out) :
    (LocatesPhdrs writer.arch.bits out.data → 2 ^ writer.arch.bits ∣ writer.config.baseAddr) ∧
      (writer.arch.bits = 64 ∨ out.data.length < 2 ^ 32 →
        2 ^ writer.arch.bits ∣ writer.config.baseAddr →
          LocatesPhdrs writer.arch.bits out.data) := by
  refine ⟨base_dvd_of_locatesPhdrs hwrite, fun hsize hbase => ?_⟩
  obtain ⟨st, layout, phdrs, r, hp, hrender, hphdrs, hphnum, hr, hphdr, hload⟩ :=
    write_front hwrite
  refine ⟨_, _, hphdr, hload, locates_of_base hp hrender hphdrs hphnum hr ?_ hbase⟩
  rcases hsize with hbits | hlen
  · rw [hbits]
    exact hr.small
  · have hword : 2 ^ 32 ≤ 2 ^ writer.arch.bits := by cases writer.arch <;> decide
    have hend := hr.inside
    obtain ⟨-, -, table, -, -, -, -, -, hblocks⟩ := hp.rendered hrender
    have hin := (hblocks (st.layout.fileOff, table)
      (List.mem_append_right _ (List.mem_singleton.mpr rfl))).1
    dsimp only at hin
    omega

end Write

section Sample

/-- The sample, to be loaded at zero. -/
def zeroWriter : DylibWriter :=
  { sampleWriter with config := { sampleWriter.config with baseAddr := 0 } }

theorem zeroWriter_locatesPhdrs :
    ∃ out, zeroWriter.write insertionOrder sampleRelocs sampleSymbols = some out ∧
      LocatesPhdrs 64 out.data := by
  have hruns : (zeroWriter.write insertionOrder sampleRelocs sampleSymbols).isSome = true := by
    decide +kernel
  obtain ⟨out, hwrite⟩ := Option.isSome_iff_exists.mp hruns
  exact ⟨out, hwrite, (locatesPhdrs_iff hwrite).2 (.inl rfl) ⟨0, rfl⟩⟩

/-- At a base address of four pages the address of the table is that of the file header. -/
theorem sampleWriter_phdrs_elsewhere :
    sampleWriter.config.pageSize ∣ sampleWriter.config.baseAddr ∧
      ∃ out, sampleWriter.write insertionOrder sampleRelocs sampleSymbols = some out ∧
        ¬ LocatesPhdrs 64 out.data := by
  refine ⟨⟨4, rfl⟩, ?_⟩
  have hruns : (sampleWriter.write insertionOrder sampleRelocs sampleSymbols).isSome = true := by
    decide +kernel
  obtain ⟨out, hwrite⟩ := Option.isSome_iff_exists.mp hruns
  refine ⟨out, hwrite, fun h => ?_⟩
  have hdvd : 2 ^ 64 ∣ 0x40 := base_dvd_of_locatesPhdrs hwrite h
  exact absurd hdvd (by decide)

end Sample

end ElfLoader.GenElf
