import ElfLoader.GenElf.Contents
import ElfLoader.GenElf.OwnPhdrs
import ElfLoader.Loader.Mapped

/-! # A generated file in memory

The loader takes a file of the generator for a dynamic library. When it has loaded the
file, every section with an address stands at that address, counted from the base, and
the dynamic section is where the loader looks for it.
-/

namespace ElfLoader.GenElf

open ByteMemory Splice Placement

instance (arch : Arch) : WordSize arch.bits := ⟨(bits_cases arch).symm⟩

/-! ## Files for the loader -/

/-- The pages of the file are pages of the loader, and the file ends before the addresses
do. -/
structure ForLoader (writer : DylibWriter) (file : List UInt8) : Prop where
  page : ∃ k, 12 ≤ k ∧ writer.config.pageSize = 2 ^ k
  base : writer.config.pageSize ∣ writer.config.baseAddr
  sum : writer.config.baseAddr + file.length < 2 ^ writer.arch.bits

/-- What is known of such a file. -/
structure Emitted (writer : DylibWriter) (st : WriteState) (layout : ElfLayout)
    (phdrs : List ProgramHeader) (file : List UInt8) : Prop where
  prepared : Prepared writer st layout
  rendered : writer.render st = some file
  headers : st.manager.phdrs writer.arch.is64 layout.pageSize = some phdrs
  written : Written writer st phdrs file
  fits : Fits writer st file
  page : 2 ^ 12 ∣ layout.pageSize
  base : layout.pageSize ∣ layout.baseAddr
  covers : ∃ r rx rw, phdrs.filter (fun p => p.pType = ptLoad) = [r, rx, rw] ∧
    Covers layout st.manager.shdrs 0 r ∧ Covers layout st.manager.shdrs 1 rx ∧
    Covers layout st.manager.shdrs 2 rw

theorem emitted {writer : DylibWriter} {order : HashOrder} {rawRelocs : List RelocEntry}
    {symbols : List SymbolDesc} {st : WriteState} {file : List UInt8}
    (hprepare : writer.prepare order rawRelocs symbols = some st)
    (hrender : writer.render st = some file) (hfor : ForLoader writer file) :
    ∃ layout phdrs, Emitted writer st layout phdrs file := by
  obtain ⟨layout, hp⟩ := prepared hprepare
  obtain ⟨-, phdrs, -, hphdrs, -⟩ := render_eq_some hrender
  have hphnum := phdrs_length hp.rSecs hp.rxSecs hp.rwSecs hp.groups hphdrs
  have hsum := hfor.sum
  have hw := hp.written hrender hphdrs hphnum (by omega)
  obtain ⟨k, hk, hpage⟩ := hfor.page
  have hdvd : ∀ sec ∈ st.manager.shdrs, sec.header.addralign ∣ layout.pageSize := by
    intro sec hsec
    rw [hp.pageSize, hpage]
    have halign := hp.addralign sec hsec
    refine addralign_dvd halign (Nat.le_trans ?_ (Nat.pow_le_pow_right (by omega) hk))
    simp only [List.mem_cons, List.not_mem_nil, or_false] at halign
    omega
  rw [← hp.pageSize] at hphdrs
  refine ⟨layout, phdrs, hp, hrender, hphdrs, hw,
    ⟨Nat.le_trans (Nat.le_add_right _ _) hw.fits, hsum⟩, ?_, ?_,
    hp.laidOut.loads hp.rSecs hp.rxSecs hp.rwSecs hdvd hp.groups hphdrs⟩
  · rw [hp.pageSize, hpage]
    exact Nat.pow_dvd_pow 2 hk
  · rw [hp.pageSize, hp.baseAddr]
    exact hfor.base

section File

variable {writer : DylibWriter} {st : WriteState} {layout : ElfLayout}
  {phdrs : List ProgramHeader} {file : List UInt8}

theorem pageLen_le {x y : Nat} (hle : x ≤ y) (hy : 2 ^ 12 ∣ y) : pageLen x ≤ y := by
  unfold pageLen
  omega

/-- A segment of a group can be loaded. -/
theorem Emitted.loadable (he : Emitted writer st layout phdrs file) {g : Nat} {p : ProgramHeader}
    (hp : Covers layout st.manager.shdrs g p) :
    (p.elfPhdr writer.arch.bits).Loadable file := by
  obtain ⟨hvaddr, hoffset, hmemsz⟩ := load_view he.prepared he.fits hp
  have hfilesz : (p.elfPhdr writer.arch.bits).pFilesz.toNat = p.pMemsz := by
    rw [← hmemsz]
    exact congrArg (fun n => (BitVec.ofNat writer.arch.bits n).toNat) hp.filesz
  obtain ⟨sec, hsec, -, hend⟩ := hp.ends
  have hin := (he.prepared.laidOut.ascending.bounds sec hsec).2
  obtain ⟨hlast, hsum⟩ := he.fits
  have hv := hp.vaddr
  have hoff : 2 ^ 12 ∣ p.pOffset := Nat.dvd_trans he.page hp.page
  have hbase : 2 ^ 12 ∣ layout.baseAddr := Nat.dvd_trans he.page he.base
  rw [← he.prepared.baseAddr] at hsum
  constructor
  case filesz_le => rw [hfilesz, hmemsz]
  case no_wrap =>
    rw [hvaddr, hmemsz]
    omega
  case congruent =>
    rw [hoffset, hvaddr, hv]
    omega
  case present =>
    rw [hoffset, hfilesz]
    omega

theorem Emitted.pages_apart (he : Emitted writer st layout phdrs file) {g g' : Nat}
    {p q : ProgramHeader} (hp : Covers layout st.manager.shdrs g p)
    (hq : Covers layout st.manager.shdrs g' q) (hlt : g < g') :
    Disjoint (p.elfPhdr writer.arch.bits).pages (q.elfPhdr writer.arch.bits).pages := by
  obtain ⟨hpv, -, hpm⟩ := load_view he.prepared he.fits hp
  obtain ⟨hqv, -, -⟩ := load_view he.prepared he.fits hq
  have hapart := he.prepared.laidOut.apart he.base hp hq hlt
  have hstart : 2 ^ 12 ∣ q.pVaddr := by
    rw [hq.vaddr]
    exact Nat.dvd_add (Nat.dvd_trans he.page he.base) (Nat.dvd_trans he.page hq.page)
  have hend := pageLen_le (Nat.le_trans (le_up _ _) hapart) hstart
  unfold ElfPhdr.pages
  rw [hpv, hpm, hqv, Set.disjoint_left]
  rintro x ⟨-, hlo⟩ ⟨hhi, -⟩
  omega

/-- The loader can load the segments, which share no page. -/
theorem Emitted.segments (he : Emitted writer st layout phdrs file) :
    (∀ ph ∈ loads writer.arch.bits file, ph.Loadable file) ∧
      (loads writer.arch.bits file).Pairwise fun p q => Disjoint p.pages q.pages := by
  obtain ⟨r, rx, rw, hfilter, hr, hrx, hrw⟩ := he.covers
  rw [loads_eq he.written, hfilter]
  constructor
  · intro ph hph
    simp only [List.map_cons, List.map_nil, List.mem_cons, List.not_mem_nil, or_false] at hph
    rcases hph with rfl | rfl | rfl
    exacts [he.loadable hr, he.loadable hrx, he.loadable hrw]
  · refine List.Pairwise.cons (fun q hq => ?_)
      (List.Pairwise.cons (fun q hq => ?_) (List.pairwise_singleton _ _))
    · rcases List.mem_cons.mp hq with rfl | hq
      · exact he.pages_apart hr hrx (by decide)
      · rw [List.mem_singleton.mp hq]
        exact he.pages_apart hr hrw (by decide)
    · rw [List.mem_singleton.mp hq]
      exact he.pages_apart hrx hrw (by decide)

/-- A section with an address lies in a segment. -/
theorem Emitted.segment_of (he : Emitted writer st layout phdrs file) {sec : Section}
    (halloc : sec.header.shtype.isAlloc = true) :
    ∃ g p, sec.group = some g ∧ Covers layout st.manager.shdrs g p ∧
      p.elfPhdr writer.arch.bits ∈ loads writer.arch.bits file := by
  obtain ⟨r, rx, rw, hfilter, hr, hrx, hrw⟩ := he.covers
  rw [loads_eq he.written, hfilter]
  obtain ⟨g, hlt, hg⟩ := group_of_isAlloc halloc
  match g, hlt with
  | 0, _ => exact ⟨0, r, hg, hr, by simp⟩
  | 1, _ => exact ⟨1, rx, hg, hrx, by simp⟩
  | 2, _ => exact ⟨2, rw, hg, hrw, by simp⟩

/-! ## The sections in memory -/

variable {m : Bytes writer.arch.bits} {segs : ElfSegments writer.arch.bits}

/-- A section stands in memory at its address, and the pointer to it leads there. -/
theorem Emitted.section_at (he : Emitted writer st layout phdrs file)
    (hm : segs.Holds (programHeaders writer.arch.bits file) file m) {sec : Section}
    (hsec : sec ∈ st.manager.shdrs) (halloc : sec.header.shtype.isAlloc = true) :
    read m (segs.base + BitVec.ofNat _ sec.header.addr) sec.size = st.allocator sec.data ∧
      st.allocator sec.data <+:
        segs.behind m (segs.base + BitVec.ofNat _ sec.header.addr) := by
  obtain ⟨g, p, hg, hcovers, hmem⟩ := he.segment_of halloc
  obtain ⟨hvaddr, hoffset, hmemsz⟩ := load_view he.prepared he.fits hcovers
  have hin := hcovers.inside sec hsec hg
  have hv := hcovers.vaddr
  have haddr := he.prepared.laidOut.addr_of_group hsec hg
  have hloadable := he.loadable hcovers
  obtain ⟨hprogram, htype⟩ := List.mem_filter.mp hmem
  have hfilesz : (p.elfPhdr writer.arch.bits).pFilesz.toNat = p.pMemsz := by
    rw [← hmemsz]
    exact congrArg (fun n => (BitVec.ofNat writer.arch.bits n).toNat) hcovers.filesz
  have hread : read m (segs.base + BitVec.ofNat _ sec.header.addr) sec.size =
      st.allocator sec.data := by
    have hloaded := hm.loaded _ hprogram (of_decide_eq_true htype)
    have hcontent := @ElfPhdr.ContentLoaded.read_eq _ _ _ _ _ (hloaded.content hloadable.filesz_le)
      sec.offset sec.size (by omega) (by omega)
    rw [← he.prepared.contents he.rendered hsec, ← hcontent, BitVec.add_assoc]
    congr 2
    have hsplit : (p.elfPhdr writer.arch.bits).pVaddr = BitVec.ofNat _ p.pVaddr := rfl
    rw [hsplit, ← BitVec.ofNat_add, hoffset]
    congr 1
    omega
  refine ⟨hread, ?_⟩
  rw [← hread]
  exact hm.prefix_behind hprogram (of_decide_eq_true htype) hloadable (by omega) (by omega)

section Kinds

variable {order : HashOrder} {rawRelocs : List RelocEntry} {listed : List SymbolDesc}
  {u : Unplaced} {header : ElfLayout} {a₁ a₂ a₃ : SectionAllocator} {kind : SectionKind}

/-- A section has an address behind the file header, and ends in the address space. -/
structure Placed (st : WriteState) (w : Nat) (kind : SectionKind) : Prop where
  positive : 0 < st.manager.getVaddr kind
  fits : st.manager.getVaddr kind + st.manager.getSize kind < 2 ^ w

/-- A section of the file, found by its kind. -/
structure Stands (st : WriteState) {w : Nat} (m : Bytes w) (segs : ElfSegments w)
    (kind : SectionKind) : Prop extends Placed st w kind where
  sized : (st.allocator kind.buffer).length = st.manager.getSize kind
  bytes : read m (segs.base + BitVec.ofNat w (st.manager.getVaddr kind))
    (st.manager.getSize kind) = st.allocator kind.buffer
  behind : st.allocator kind.buffer <+:
    segs.behind m (segs.base + BitVec.ofNat w (st.manager.getVaddr kind))

/-- Every section with an address that the file has stands in memory. -/
theorem Emitted.stands (he : Emitted writer st layout phdrs file)
    (hc : Created writer rawRelocs listed u) (hs : Steps writer order u st header a₁ a₂ a₃)
    (hm : segs.Holds (programHeaders writer.arch.bits file) file m)
    (hkind : kind ∈ (cores u.sizeOf writer.arch.isRela writer.arch.is64
      (!u.symtab.getTlsContent.isEmpty)).map Prod.fst) (halloc : kind.isAlloc = true) :
    Stands st m segs kind := by
  obtain ⟨sec, hsec, hfind, hshtype, hbuffer⟩ := section_of_core hc hs hkind
  have halloc' : sec.header.shtype.isAlloc = true := by rwa [hshtype]
  obtain ⟨hread, hbehind⟩ := he.section_at hm hsec halloc'
  have haddr := he.prepared.laidOut.addr sec hsec
  rw [if_pos halloc', he.prepared.baseAddr] at haddr
  have hin := he.prepared.laidOut.ascending.bounds sec hsec
  have hhead := he.prepared.behindHeaders
  have hehdr : 0 < ehdrSize writer.arch.is64 := by cases writer.arch <;> decide
  obtain ⟨hlast, hsum⟩ := he.fits
  have hvaddr : st.manager.getVaddr kind = sec.header.addr := by
    rw [ShdrManager.getVaddr, hfind]
    rfl
  have hsize : st.manager.getSize kind = sec.size := by
    rw [ShdrManager.getSize, hfind]
    rfl
  rw [hbuffer] at hread hbehind
  refine ⟨⟨?_, ?_⟩, ?_, ?_, ?_⟩
  · omega
  · omega
  · rw [hsize, ← hbuffer]
    exact he.prepared.sized sec hsec
  · rwa [hvaddr, hsize]
  · rwa [hvaddr]

end Kinds

/-! ## The load -/

theorem loadSegment_type {secs : List Section} {flags : BitVec 32} {fromStart : Bool}
    {pageSize : Nat} {ps : List ProgramHeader}
    (h : loadSegment secs flags fromStart pageSize = some ps) : ∀ p ∈ ps, p.pType = ptLoad := by
  intro p hp
  unfold loadSegment at h
  split at h
  · cases fromStart with
    | false =>
        simp only [Bool.false_eq_true, if_false, Option.bind_eq_bind, Option.bind_eq_some_iff,
          Option.pure_def, Option.some.injEq] at h
        obtain ⟨pVaddr, -, fileEnd, -, pFilesz, -, rfl⟩ := h
        rw [List.mem_singleton.mp hp]
    | true =>
        simp only [if_true, Option.bind_eq_bind, Option.bind_eq_some_iff, Option.pure_def,
          Option.some.injEq] at h
        obtain ⟨pVaddr, -, fileEnd, -, pFilesz, -, rfl⟩ := h
        rw [List.mem_singleton.mp hp]
  · cases h
    exact absurd hp List.not_mem_nil

/-- The header of the dynamic section is the only one of its type. -/
theorem Emitted.dynamic_header (he : Emitted writer st layout phdrs file) {sec : Section}
    (hfind : st.manager.find .dynamic = some sec) :
    dynamicPaddr (programHeaders writer.arch.bits file) =
        some (BitVec.ofNat _ (st.manager.getVaddr .dynamic)) ∧
      hasType ElfLoader.ptDynamic (programHeaders writer.arch.bits file) = true ∧
      hasType ElfLoader.ptInterp (programHeaders writer.arch.bits file) = false := by
  have hphdrs := he.headers
  unfold ShdrManager.phdrs at hphdrs
  simp only [Option.bind_eq_bind, Option.bind_eq_some_iff, Option.pure_def,
    Option.some.injEq] at hphdrs
  obtain ⟨rxSecs, -, rSecs, -, rwSecs, -, r, hr, rx, hrx, rw, hrw, hlist⟩ := hphdrs
  have hvaddr : st.manager.getVaddr .dynamic = sec.header.addr := by
    rw [ShdrManager.getVaddr, hfind]
    rfl
  rw [hfind] at hlist
  generalize htable : ProgramHeader.mk ptPhdr _ _ _ _ _ _ = table at hlist
  have htable : table.pType = ptPhdr := by rw [← htable]
  have hload : ∀ p ∈ r ++ rx ++ rw, p.pType = ptLoad := by
    intro p hp
    rcases List.mem_append.mp hp with hp | hp
    · rcases List.mem_append.mp hp with hp | hp
      exacts [loadSegment_type hr p hp, loadSegment_type hrx p hp]
    · exact loadSegment_type hrw p hp
  generalize r ++ rx ++ rw = loads at hload hlist
  have htype : ∀ (t : BitVec 32) (p : ProgramHeader),
      decide ((p.elfPhdr writer.arch.bits).pType = UInt32.ofBitVec t) = decide (p.pType = t) :=
    fun t p => decide_eq_decide.mpr UInt32.toBitVec_inj.symm
  have htls : ∀ p ∈ sectionSegment (st.manager.find .tls) ptTls pfR
      (if writer.arch.is64 then 8 else 4), p.pType = ptTls := by
    intro p hp
    unfold sectionSegment at hp
    split at hp
    · rw [List.mem_singleton.mp hp]
    · exact absurd hp List.not_mem_nil
  generalize sectionSegment (st.manager.find .tls) ptTls pfR _ = tls at htls hlist
  have hnone : ∀ (l : List ProgramHeader) (t t' : BitVec 32), (∀ p ∈ l, p.pType = t) → t ≠ t' →
      l.filter (fun p => p.pType = t') = [] := by
    intro l t t' hl hne
    refine List.filter_eq_nil_iff.mpr fun p hp => ?_
    rw [hl p hp]
    simpa using hne
  have hdyn : (phdrs.filter fun p => p.pType = ptDynamic) =
      sectionSegment (some sec) ptDynamic (pfR ||| pfW) 8 := by
    rw [← hlist, List.filter_cons_of_neg (by rw [htable]; decide), List.filter_append,
      List.filter_append, hnone loads _ _ hload (by decide), hnone tls _ _ htls (by decide), List.append_nil,
      List.nil_append]
    exact List.filter_cons_of_pos rfl
  have hinterp : (phdrs.filter fun p => p.pType = 3#32) = [] := by
    rw [← hlist, List.filter_cons_of_neg (by rw [htable]; decide), List.filter_append,
      List.filter_append, hnone loads _ _ hload (by decide), hnone tls _ _ htls (by decide), List.append_nil,
      List.nil_append]
    exact List.filter_cons_of_neg (by simp [ptDynamic])
  have hfilter : (programHeaders writer.arch.bits file).filter
      (fun ph => ph.pType = ElfLoader.ptDynamic) =
        (sectionSegment (some sec) ptDynamic (pfR ||| pfW) 8).map fun p =>
          p.elfPhdr writer.arch.bits := by
    rw [he.written.programHeaders, List.filter_map, ← hdyn]
    exact congrArg _ (List.filter_congr fun p _ => htype ptDynamic p)
  refine ⟨?_, ?_, ?_⟩
  · rw [dynamicPaddr, hfilter, hvaddr]
    rfl
  · have hmem : (programHeaders writer.arch.bits file).filter
        (fun ph => ph.pType = ElfLoader.ptDynamic) ≠ [] := by
      rw [hfilter]
      exact List.cons_ne_nil _ _
    obtain ⟨ph, hph⟩ := List.exists_mem_of_ne_nil _ hmem
    obtain ⟨hin, ht⟩ := List.mem_filter.mp hph
    exact List.any_eq_true.mpr ⟨ph, hin, ht⟩
  · refine List.any_eq_false.mpr fun ph hph ht => ?_
    rw [he.written.programHeaders] at hph
    obtain ⟨p, hp, rfl⟩ := List.mem_map.mp hph
    rw [show ElfLoader.ptInterp = UInt32.ofBitVec 3#32 from rfl, htype] at ht
    exact absurd (List.mem_filter.mpr ⟨hp, ht⟩) (by rw [hinterp]; exact List.not_mem_nil)

section Load

variable {order : HashOrder} {rawRelocs : List RelocEntry} {listed : List SymbolDesc}
  {u : Unplaced} {header : ElfLayout} {a₁ a₂ a₃ : SectionAllocator} {K O D : Type}
  {L : Loader writer.arch.bits K D} {R : ElfReader writer.arch.bits O} {name : Name}
  {s s' : LoadState writer.arch.bits K O}

/-- The file is loaded as a dynamic library, with its dynamic section. -/
theorem Emitted.load_ok (he : Emitted writer st layout phdrs file)
    (hc : Created writer rawRelocs listed u) (hs : Steps writer order u st header a₁ a₂ a₃)
    (hM : MapsFile L.mmap file)
    (hprotect : ∀ {addr len prot os u os'}, L.mmap.mprotect addr len prot os = .ok u os' →
      os'.mem = os.mem)
    (hR : ReadsFile R file) {raw : RawElf writer.arch.bits D}
    (h : L.load R name s = .ok raw s') :
    ∃ image, raw = .dylib image ∧
      image.segments.Holds (programHeaders writer.arch.bits file) file s'.os.mem ∧
      image.dynamicPtr =
        image.segments.base + BitVec.ofNat _ (st.manager.getVaddr .dynamic) := by
  obtain ⟨sec, -, hfind, -⟩ := section_of_core hc hs
    (show SectionKind.dynamic ∈ _ from by simp [cores])
  obtain ⟨shstrndx, hehdr⟩ := he.written.fileHeader
  obtain ⟨hentsize, -⟩ := elfEhdr_table writer st shstrndx
  obtain ⟨hpaddr, hdynamic, hinterp⟩ := he.dynamic_header hfind
  obtain ⟨hloadable, hdisj⟩ := he.segments
  have hentsize' : (Ehdr.ofBytes file : Ehdr writer.arch.bits).ePhentsize.toNat =
      ElfLoader.phdrSize writer.arch.bits := by
    rw [← hentsize, ← hehdr]
    rfl
  have hprograms : (Ehdr.ofBytes file : Ehdr writer.arch.bits).phdrTable file =
      programHeaders writer.arch.bits file := (programHeaders_eq_phdrTable hentsize').symm
  rw [← hprograms] at hdynamic hinterp hpaddr
  obtain ⟨image, s₁, rfl, hload⟩ := Loader.load_dylib_ok hR (by
    change (fileHeader writer.arch.bits file).eType = etDyn
    rw [hehdr]
    rfl) hentsize' hdynamic hinterp h
  obtain ⟨hholds, hptr⟩ := Loader.loadDynamicImpl_holds hM hprotect hR
    (fun ph hph htype => hloadable ph (List.mem_filter.mpr ⟨hprograms ▸ hph, by simpa using htype⟩))
    (by rw [hprograms]; exact hdisj) hload
  rw [hpaddr] at hptr
  rw [hprograms] at hholds
  exact ⟨image, rfl, hholds, (Option.some.inj hptr).symm⟩

end Load

end File

end ElfLoader.GenElf
