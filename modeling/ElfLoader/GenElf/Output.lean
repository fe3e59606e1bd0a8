import ElfLoader.GenElf.Layout
import ElfLoader.GenElf.ReadBack

/-! # The generated file

The file header, the program headers, the sections and the section headers are
written one after another, and the loader finds each of them where the file header
and the section headers say.
-/

namespace ElfLoader.GenElf

open ByteMemory Splice Placement

/-! ## What the loader reads -/

section Read

variable (w : Nat) (file : List UInt8)

def fileHeader : Ehdr w := Ehdr.ofBytes file

def programHeaders : List (ElfPhdr w) :=
  let ehdr := fileHeader w file
  records ElfPhdr.ofBytes (ElfLoader.phdrSize w)
    (slice file ehdr.ePhoff.toNat (ehdr.ePhentsize.toNat * ehdr.ePhnum.toNat)) ehdr.ePhnum.toNat

def sectionHeaders : List (ElfShdr w) :=
  let ehdr := fileHeader w file
  records ElfShdr.ofBytes (ElfLoader.shdrSize w)
    (slice file ehdr.eShoff.toNat (ehdr.eShentsize.toNat * ehdr.eShnum.toNat)) ehdr.eShnum.toNat

end Read

/-! ## What is written -/

/-- The sections of the file, with their contents. -/
def WriteState.blocks (st : WriteState) : List (Nat × List UInt8) :=
  st.manager.shdrs.map fun sec => (sec.offset, st.allocator sec.data)

/-- The first entry of the section header table. -/
def nullHeader : SectionHeader where
  nameOff := 0
  shtype := .null
  addr := 0
  offset := 0
  size := 0
  addralign := 0

/-- The entries of the section header table. -/
def WriteState.headers (st : WriteState) : List SectionHeader :=
  nullHeader :: st.manager.shdrs.map Section.header

section Tables

variable {writer : DylibWriter} {st : WriteState} {arch : Arch}

theorem nullHeader_fields {w : Nat} (hw : w = 64 ∨ w = 32) (map : SectionKind.Map) :
    (nullHeader.fields w map).flatten = List.replicate (ElfLoader.shdrSize w) 0 := by
  have hzero : ∀ n, leBytes (BitVec.ofNat n 0) = List.replicate (n / 8) 0 := by
    intro n
    rw [leBytes, List.eq_replicate_iff]
    simp
  have hfields : nullHeader.fields w map =
      [List.replicate 4 0, List.replicate 4 0, List.replicate (w / 8) 0, List.replicate (w / 8) 0,
        List.replicate (w / 8) 0, List.replicate (w / 8) 0, List.replicate 4 0,
        List.replicate 4 0, List.replicate (w / 8) 0, List.replicate (w / 8) 0] := by
    simp [SectionHeader.fields, nullHeader, SectionKind.shtype, SectionKind.flags,
      SectionKind.link, SectionKind.info, SectionKind.entsize, hzero]
  rw [hfields]
  rcases hw with rfl | rfl <;> rfl

theorem sizes_eq (arch : Arch) : ehdrSize arch.is64 = ElfLoader.ehdrSize arch.bits ∧
    phdrSize arch.is64 = ElfLoader.phdrSize arch.bits ∧
    shdrSize arch.is64 = ElfLoader.shdrSize arch.bits := by
  cases arch <;> exact ⟨rfl, rfl, rfl⟩

/-- The section header table. -/
theorem writeShdrs_eq_some {table : List UInt8}
    (h : st.manager.writeShdrs arch.is64 = some table) :
    table = (st.headers.map fun h => (h.fields arch.bits st.manager.getShdrMap).flatten).flatten := by
  unfold ShdrManager.writeShdrs at h
  simp only [Option.bind_eq_bind, Option.bind_eq_some_iff, Option.pure_def,
    Option.some.injEq] at h
  obtain ⟨entries, hentries, rfl⟩ := h
  have heq : entries = st.manager.shdrs.map fun sec =>
      (sec.header.fields arch.bits st.manager.getShdrMap).flatten := by
    apply List.ext_getElem?
    intro i
    have hi := Partial.mapM_getElem? hentries i
    rw [List.getElem?_map]
    cases hsec : st.manager.shdrs[i]? with
    | none => rwa [hsec] at hi
    | some sec =>
        rw [hsec] at hi
        have hlt : i < entries.length := by
          rw [Partial.mapM_length hentries]
          exact (List.getElem?_eq_some_iff.mp hsec).1
        have hentry := List.getElem?_eq_getElem hlt
        rw [hentry] at hi ⊢
        exact congrArg some (SectionHeader.write_eq_some hi.symm)
  have hnull := nullHeader_fields (bits_cases arch) st.manager.getShdrMap
  have hsize : (if arch.is64 = true then 64 else 40) = ElfLoader.shdrSize arch.bits := by
    cases arch <;> rfl
  rw [heq, hsize, ← hnull, WriteState.headers, List.map_cons, List.flatten_cons, List.map_map]
  rfl

/-- The file is the headers and, behind them, the sections and the section header
table. -/
theorem render_eq_some {file : List UInt8} (h : writer.render st = some file) :
    ∃ shstrndx phdrs table,
      st.manager.phdrs writer.arch.is64 writer.config.pageSize = some phdrs ∧
        st.manager.writeShdrs writer.arch.is64 = some table ∧
        file = writeAll 0 ((writer.ehdrFields st shstrndx).flatten ++
            (phdrs.map fun p => (p.fields writer.arch.bits).flatten).flatten)
          (st.blocks ++ [(st.layout.fileOff, table)]) := by
  unfold DylibWriter.render ShdrManager.writePhdrs at h
  simp only [Option.bind_eq_bind, Option.bind_eq_some_iff, Option.pure_def,
    Option.some.injEq] at h
  obtain ⟨ehdr, hehdr, bytes, ⟨phdrs, hphdrs, rfl⟩, table, htable, rfl⟩ := h
  obtain ⟨shstrndx, -, rfl⟩ := DylibWriter.ehdr_eq_some hehdr
  refine ⟨shstrndx, phdrs, table, hphdrs, htable, ?_⟩
  have hbytes : phdrs.flatMap (fun p => p.write writer.arch.is64) =
      (phdrs.map fun p => (p.fields writer.arch.bits).flatten).flatten := by
    rw [List.flatMap_def]
    congr 1
    exact List.map_congr_left fun p _ => p.write_eq writer.arch
  rw [hbytes, writeAll, List.foldl_append, WriteState.blocks, List.foldl_map]
  rfl

end Tables

/-! ## The state when the file is put together -/

/-- What holds when everything is patched. -/
structure Prepared (writer : DylibWriter) (st : WriteState) (layout : ElfLayout) : Prop where
  baseAddr : layout.baseAddr = writer.config.baseAddr
  pageSize : layout.pageSize = writer.config.pageSize
  behindHeaders : ehdrSize writer.arch.is64 + phdrSize writer.arch.is64 * st.manager.getPhnum ≤
    layout.fileOff
  laidOut : LaidOut layout st.layout st.manager.shdrs
  rSecs : st.manager.rSecs = some (st.manager.shdrs.filter fun sec => sec.group = some 0)
  rxSecs : st.manager.rxSecs = some (st.manager.shdrs.filter fun sec => sec.group = some 1)
  rwSecs : st.manager.rwSecs = some (st.manager.shdrs.filter fun sec => sec.group = some 2)
  groups : ∀ g < 3, ∃ sec ∈ st.manager.shdrs, sec.group = some g
  addralign : ∀ sec ∈ st.manager.shdrs, sec.header.addralign ∈ [1, 4, 8, 16]
  sized : ∀ sec ∈ st.manager.shdrs, (st.allocator sec.data).length = sec.size
  count : st.manager.shdrs.length ≤ 14

theorem getPhnum_congr {manager manager' : ShdrManager}
    (h : (manager'.shdrs.map Section.core).Perm (manager.shdrs.map Section.core)) :
    manager'.getPhnum = manager.getPhnum := by
  have hany : ∀ p : SectionKind → Bool, manager'.shdrs.any (fun sec => p sec.header.shtype) =
      manager.shdrs.any fun sec => p sec.header.shtype := by
    intro p
    have hcore : ∀ secs : List Section, secs.any (fun sec => p sec.header.shtype) =
        (secs.map Section.core).any fun c => p c.1 := by
      intro secs
      rw [List.any_map]
      rfl
    rw [hcore, hcore, h.any_eq]
  unfold ShdrManager.getPhnum
  simp only [hany fun kind => kind.group = some 1, hany fun kind => kind.group = some 0,
    hany fun kind => kind.group = some 2, hany fun kind => kind = .dynamic,
    hany fun kind => kind = .tls]

theorem cores_spec (len : SectionId → Nat) (isRela is64 tls : Bool) :
    (∀ c ∈ cores len isRela is64 tls, c.2.2.1 ∈ [1, 4, 8, 16]) ∧
      (∀ g < 3, ∃ c ∈ cores len isRela is64 tls, c.1.group = some g) ∧
      (cores len isRela is64 tls).length ≤ 14 := by
  refine ⟨?_, fun g hg => ?_, ?_⟩
  · cases isRela <;> cases is64 <;> cases tls <;> simp [cores]
  · have htext : (SectionKind.text, len .text, 16, SectionId.text) ∈ cores len isRela is64 tls := by
      simp [cores]
    have hhash : (SectionKind.hash, len .hash, 4, SectionId.hash) ∈ cores len isRela is64 tls := by
      simp [cores]
    have hdata : (SectionKind.data, len .data, 8, SectionId.data) ∈ cores len isRela is64 tls := by
      simp [cores]
    have hcases : g = 0 ∨ g = 1 ∨ g = 2 := by omega
    rcases hcases with rfl | rfl | rfl
    · exact ⟨_, hhash, (by decide : SectionKind.hash.group = some 0)⟩
    · exact ⟨_, htext, (by decide : SectionKind.text.group = some 1)⟩
    · exact ⟨_, hdata, (by decide : SectionKind.data.group = some 2)⟩
  · cases tls <;> simp [cores]

theorem prepared {writer : DylibWriter} {order : HashOrder} {rawRelocs : List RelocEntry}
    {symbols : List SymbolDesc} {st : WriteState}
    (h : writer.prepare order rawRelocs symbols = some st) : ∃ layout, Prepared writer st layout := by
  obtain ⟨u, layout, a₁, a₂, a₃, hc, hs⟩ := prepare_steps h
  obtain ⟨hpage, rfl⟩ := ElfLayout.alignToPage_eq_some hs.header
  obtain ⟨-, hr, hrx, hrw⟩ := layout_spec hs.layout
  obtain ⟨haligns, hgroups, hcount⟩ := cores_spec u.sizeOf writer.arch.isRela writer.arch.is64
    (!u.symtab.getTlsContent.isEmpty)
  have hperm := placed_cores hc hs
  refine ⟨_, ⟨rfl, rfl, ?_, laidOut hs.layout, hr, hrx, hrw, fun g hg => ?_, fun sec hsec => ?_,
    fun sec hsec => section_sized hc hs hsec, ?_⟩⟩
  · rw [getPhnum_congr (layout_core hs.layout)]
    exact le_up _ _
  · obtain ⟨c, hcore, hgroup⟩ := hgroups g hg
    obtain ⟨sec, hsec, rfl⟩ := List.mem_map.mp (hperm.mem_iff.mpr hcore)
    exact ⟨sec, hsec, hgroup⟩
  · exact haligns sec.core (core_mem hc hs hsec)
  · have hlen := hperm.length_eq
    rw [List.length_map] at hlen
    omega

/-! ## The tables of the file -/

theorem flatten_length {A : Type} {f : A → List UInt8} {size : Nat} (l : List A)
    (h : ∀ a ∈ l, (f a).length = size) : (l.map f).flatten.length = size * l.length := by
  induction l with
  | nil => rfl
  | cons a l ih =>
      rw [List.map_cons, List.flatten_cons, List.length_append, h a List.mem_cons_self,
        ih fun b hb => h b (List.mem_cons_of_mem _ hb), List.length_cons, Nat.mul_succ,
        Nat.add_comm]

/-- A table of equal records, read with the parser of the records. -/
theorem records_map {A R : Type} {f : A → List UInt8} {ofBytes : List UInt8 → R} {r : A → R}
    {size : Nat} (l : List A) (hlen : ∀ a ∈ l, (f a).length = size)
    (hparse : ∀ a rest, ofBytes (f a ++ rest) = r a) :
    records ofBytes size (l.map f).flatten l.length = l.map r := by
  have hread : List.Forall₂ (fun e x => e.length = size ∧ ∀ rest, ofBytes (e ++ rest) = x)
      (l.map f) (l.map r) := by
    rw [List.forall₂_map_left_iff, List.forall₂_map_right_iff, List.forall₂_same]
    exact fun a ha => ⟨hlen a ha, hparse a⟩
  have h := records_flatten hread
  rwa [List.length_map] at h

/-- The bytes of the file are those of the headers and the sections. -/
structure Written (writer : DylibWriter) (st : WriteState) (phdrs : List ProgramHeader)
    (file : List UInt8) : Prop where
  fileHeader : ∃ shstrndx, fileHeader writer.arch.bits file = writer.elfEhdr st shstrndx
  programHeaders : programHeaders writer.arch.bits file =
    phdrs.map fun p => p.elfPhdr writer.arch.bits
  sectionHeaders : sectionHeaders writer.arch.bits file =
    st.headers.map fun h => h.elfShdr writer.arch.bits st.manager.getShdrMap
  contents : ∀ sec ∈ st.manager.shdrs, slice file sec.offset sec.size = st.allocator sec.data
  fits : st.layout.fileOff + shdrSize writer.arch.is64 * st.headers.length ≤ file.length

theorem getPhnum_le (manager : ShdrManager) : manager.getPhnum ≤ 6 := by
  unfold ShdrManager.getPhnum
  have hbit : ∀ b : Bool, b.toNat ≤ 1 := by decide
  have h₀ := hbit (manager.shdrs.any fun sec => sec.header.shtype.group = some 1)
  have h₁ := hbit (manager.shdrs.any fun sec => sec.header.shtype.group = some 0)
  have h₂ := hbit (manager.shdrs.any fun sec => sec.header.shtype.group = some 2)
  have h₃ := hbit (manager.shdrs.any fun sec => sec.header.shtype = .dynamic)
  have h₄ := hbit (manager.shdrs.any fun sec => sec.header.shtype = .tls)
  dsimp only
  omega

theorem recordSizes_lt (arch : Arch) :
    phdrSize arch.is64 < 2 ^ 16 ∧ shdrSize arch.is64 < 2 ^ 16 := by
  cases arch <;> decide

theorem ehdrSize_lt (arch : Arch) : ehdrSize arch.is64 < 2 ^ arch.bits := by
  cases arch <;> decide

section Written

variable {writer : DylibWriter} {st : WriteState} {layout : ElfLayout}
  {phdrs : List ProgramHeader} {file : List UInt8}

/-- The blocks behind the headers stand in order. -/
theorem Prepared.ascending (hp : Prepared writer st layout) {table : List UInt8} :
    Ascending Prod.fst (fun block => block.2.length) layout.fileOff
      (st.layout.fileOff + table.length) (st.blocks ++ [(st.layout.fileOff, table)]) := by
  have hsecs : Ascending Prod.fst (fun block => block.2.length) layout.fileOff
      st.layout.fileOff st.blocks := by
    rw [WriteState.blocks, Ascending.map_iff]
    exact hp.laidOut.ascending.congr fun sec hsec => ⟨rfl, hp.sized sec hsec⟩
  exact hsecs.append ⟨Nat.le_refl _, Nat.le_refl _⟩

/-- The headers stand in front, and every block where it was written. -/
theorem Prepared.rendered (hp : Prepared writer st layout) (hrender : writer.render st = some file) :
    ∃ shstrndx phdrs table, ∃ head : List UInt8,
      st.manager.phdrs writer.arch.is64 writer.config.pageSize = some phdrs ∧
      st.manager.writeShdrs writer.arch.is64 = some table ∧
      head = (writer.ehdrFields st shstrndx).flatten ++
        (phdrs.map fun p => (p.fields writer.arch.bits).flatten).flatten ∧
      (∀ o n, o + n ≤ head.length → slice file o n = slice head o n) ∧
      ∀ block ∈ st.blocks ++ [(st.layout.fileOff, table)],
        block.1 + block.2.length ≤ file.length ∧
          slice file block.1 block.2.length = block.2 := by
  obtain ⟨hesize, hpsize, -⟩ := sizes_eq writer.arch
  obtain ⟨shstrndx, phdrs, table, hphdrs, htable, hfile⟩ := render_eq_some hrender
  have hphnum := phdrs_length hp.rSecs hp.rxSecs hp.rwSecs hp.groups hphdrs
  have hehdrLen : (writer.ehdrFields st shstrndx).flatten.length =
      ElfLoader.ehdrSize writer.arch.bits := DylibWriter.ehdrFields_length shstrndx
  have hphdrsLen := flatten_length phdrs fun p _ => p.fields_length (bits_cases writer.arch)
  have hroom : ((writer.ehdrFields st shstrndx).flatten ++
      (phdrs.map fun p => (p.fields writer.arch.bits).flatten).flatten).length ≤
        layout.fileOff := by
    rw [List.length_append, hehdrLen, hphdrsLen, hphnum, ← hesize, ← hpsize]
    exact hp.behindHeaders
  obtain ⟨-, -, hkeep, hblocks⟩ := writeAll_ascending 0 hp.ascending hroom
  rw [← hfile] at hkeep hblocks
  exact ⟨shstrndx, phdrs, table, _, hphdrs, htable, rfl, hkeep, hblocks⟩

/-- Every section stands in the file where its header says. -/
theorem Prepared.contents (hp : Prepared writer st layout) (hrender : writer.render st = some file)
    {sec : Section} (hsec : sec ∈ st.manager.shdrs) :
    slice file sec.offset sec.size = st.allocator sec.data := by
  obtain ⟨-, -, table, -, -, -, -, -, hblocks⟩ := hp.rendered hrender
  have hblock := (hblocks (sec.offset, st.allocator sec.data)
    (List.mem_append_left _ (List.mem_map.mpr ⟨sec, hsec, rfl⟩))).2
  rwa [hp.sized sec hsec] at hblock

/-- The headers are read back wherever the file ends. -/
theorem Prepared.headers (hp : Prepared writer st layout) (hrender : writer.render st = some file)
    (hphdrs : st.manager.phdrs writer.arch.is64 writer.config.pageSize = some phdrs)
    (hphnum : phdrs.length = st.manager.getPhnum) :
    ∃ shstrndx, fileHeader writer.arch.bits file = writer.elfEhdr st shstrndx ∧
      programHeaders writer.arch.bits file = phdrs.map fun p => p.elfPhdr writer.arch.bits := by
  obtain ⟨hesize, hpsize, -⟩ := sizes_eq writer.arch
  have hbits := bits_cases writer.arch
  obtain ⟨shstrndx, phdrs', table, head, hphdrs', -, hheadEq, hkeep, -⟩ := hp.rendered hrender
  rw [hphdrs] at hphdrs'
  cases hphdrs'
  subst hheadEq
  have hehdrLen : (writer.ehdrFields st shstrndx).flatten.length =
      ElfLoader.ehdrSize writer.arch.bits := DylibWriter.ehdrFields_length shstrndx
  have hphdrsLen := flatten_length phdrs fun p _ => p.fields_length hbits
  have hhead := hkeep 0 _ (Nat.le_of_eq (Nat.zero_add _))
  rw [slice_zero, slice_zero, List.take_length] at hhead
  have hehdr : fileHeader writer.arch.bits file = writer.elfEhdr st shstrndx := by
    have hsplit := List.take_append_drop ((writer.ehdrFields st shstrndx).flatten ++
      (phdrs.map fun p => (p.fields writer.arch.bits).flatten).flatten).length file
    rw [hhead, List.append_assoc] at hsplit
    rw [fileHeader, ← hsplit]
    exact DylibWriter.ofBytes_ehdrFields shstrndx _
  refine ⟨shstrndx, hehdr, ?_⟩
  have hoff : (writer.elfEhdr st shstrndx).ePhoff.toNat = ElfLoader.ehdrSize writer.arch.bits := by
    rw [← hesize]
    exact Nat.mod_eq_of_lt (ehdrSize_lt writer.arch)
  have hentsize : (writer.elfEhdr st shstrndx).ePhentsize.toNat =
      ElfLoader.phdrSize writer.arch.bits := by
    rw [← hpsize]
    exact Nat.mod_eq_of_lt (recordSizes_lt writer.arch).1
  have hnum : (writer.elfEhdr st shstrndx).ePhnum.toNat = phdrs.length := by
    have hle := getPhnum_le st.manager
    rw [hphnum]
    exact Nat.mod_eq_of_lt (by omega)
  have hslice := hkeep (ElfLoader.ehdrSize writer.arch.bits)
    (ElfLoader.phdrSize writer.arch.bits * phdrs.length)
    (by rw [List.length_append, hehdrLen, hphdrsLen])
  have hmiddle := slice_middle (writer.ehdrFields st shstrndx).flatten
    (phdrs.map fun p => (p.fields writer.arch.bits).flatten).flatten []
  rw [List.append_nil, hehdrLen, hphdrsLen] at hmiddle
  unfold programHeaders
  rw [hehdr]
  dsimp only
  rw [hoff, hentsize, hnum, hslice, hmiddle]
  exact records_map phdrs (fun p _ => p.fields_length hbits)
    fun p rest => p.ofBytes_fields hbits rest

theorem Prepared.written (hp : Prepared writer st layout) (hrender : writer.render st = some file)
    (hphdrs : st.manager.phdrs writer.arch.is64 writer.config.pageSize = some phdrs)
    (hphnum : phdrs.length = st.manager.getPhnum) (hlen : file.length < 2 ^ writer.arch.bits) :
    Written writer st phdrs file := by
  obtain ⟨-, -, hssize⟩ := sizes_eq writer.arch
  have hmod := bits_mod_eight writer.arch
  obtain ⟨shstrndx, hehdr, hprograms⟩ := hp.headers hrender hphdrs hphnum
  obtain ⟨-, -, table, -, -, htable, -, -, hblocks⟩ := hp.rendered hrender
  have hwriteShdrs := writeShdrs_eq_some htable
  have htableLen : table.length = ElfLoader.shdrSize writer.arch.bits * st.headers.length := by
    rw [hwriteShdrs]
    exact flatten_length st.headers fun h _ => h.fields_length _ _
  obtain ⟨htableIn, htableAt⟩ := hblocks (st.layout.fileOff, table)
    (List.mem_append_right _ (List.mem_singleton.mpr rfl))
  refine ⟨⟨shstrndx, hehdr⟩, hprograms, ?_, fun sec hsec => hp.contents hrender hsec, ?_⟩
  · have hoff : (writer.elfEhdr st shstrndx).eShoff.toNat = st.layout.fileOff := by
      apply Nat.mod_eq_of_lt
      dsimp only at htableIn
      omega
    have hentsize : (writer.elfEhdr st shstrndx).eShentsize.toNat =
        ElfLoader.shdrSize writer.arch.bits := by
      rw [← hssize]
      exact Nat.mod_eq_of_lt (recordSizes_lt writer.arch).2
    have hnum : (writer.elfEhdr st shstrndx).eShnum.toNat = st.headers.length := by
      have hle := hp.count
      rw [WriteState.headers, List.length_cons, List.length_map]
      exact Nat.mod_eq_of_lt (by omega)
    unfold sectionHeaders
    rw [hehdr]
    dsimp only
    rw [hoff, hentsize, hnum, ← htableLen, htableAt, hwriteShdrs]
    exact records_map st.headers (fun h _ => h.fields_length _ _)
      fun h rest => h.ofBytes_fields hmod _ rest
  · rw [hssize, ← htableLen]
    exact htableIn

end Written

end ElfLoader.GenElf
