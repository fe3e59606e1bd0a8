import ElfLoader.GenElf.RelocClasses
import ElfLoader.GenElf.RoundTrip
import ElfLoader.Image.EntryPoint

/-! # From the generator to the image of the loader

A generated library is loaded and its dynamic section is parsed. The tables the loader
finds in memory have the relocations that the generator has reported and the symbols
that were listed.
-/

namespace ElfLoader.GenElf

open ByteMemory Partly Splice

/-! ## The symbol tables in memory -/

section Tables

variable {w : Nat}

theorem records_isPrefix {R : Type} {ofBytes : List UInt8 → R} {size count : Nat}
    {bytes bytes' : List UInt8} (hreads : ReadsOnly ofBytes size) (hsize : 0 < size)
    (hcount : count * size ≤ bytes.length) (h : bytes <+: bytes') :
    records ofBytes size bytes count <+: entries ofBytes size bytes' := by
  refine List.IsPrefix.trans (List.IsPrefix.map _ ?_) (entries_isPrefix hreads h)
  have hle : count ≤ bytes.length / size := (Nat.le_div_iff_mul_le hsize).mpr hcount
  rw [List.prefix_iff_eq_take, List.length_range, List.take_range, Nat.min_eq_left hle]

/-- The sizes of the tables are those of the hash table, which has one bucket. -/
structure Sized (w : Nat) (hash dynsym : List UInt8) : Prop where
  header : 8 ≤ hash.length
  nbucket : (parseHash hash).nbucket = 1
  words : 8 + 4 * (1 + (parseHash hash).nchain.toNat) ≤ hash.length
  symbols : (parseHash hash).nchain.toNat * symbolSize w ≤ dynsym.length

/-- The tables in memory go on behind those of the file. -/
theorem readTable_goesOn [CustomHasher] (hw : w = 64 ∨ w = 32) {m : Bytes w} {segs : ElfSegments w}
    {dynamic : ElfDynamic w} {off : BitVec w} {hash dynsym dynstr : List UInt8}
    (hsized : Sized w hash dynsym) (hhash : dynamic.hashtab = .elf off)
    (hversion : dynamic.versionIdx = none) (hin : hash <+: segs.behind m off)
    (hsyms : dynsym <+: segs.behind m dynamic.symtab)
    (hstrs : dynstr <+: segs.behind m dynamic.strtab) :
    ∃ t, SymbolTable.parse m segs dynamic = .ok t ∧ (readTable w hash dynsym dynstr).GoesOn t := by
  obtain ⟨rest, hrest⟩ := id hin
  have hheader := hsized.header
  have hfield : ∀ {k}, k + 4 ≤ 8 → field32 (segs.behind m off) k = field32 hash k := by
    intro k hk
    rw [← hrest]
    exact field32_append rest (by omega)
  have hbucket : field32 hash 0 = 1 := hsized.nbucket
  have hbytes : (1 : UInt32).toNat * 4 % 2 ^ w = 4 := by rcases hw with rfl | rfl <;> decide
  have hparse : ElfHash.parse w (segs.behind m off) = .ok
      { nbucket := 1
        nchain := field32 hash 4
        buckets := words32 ((segs.behind m off).drop 8)
        chains := words32 ((segs.behind m off).drop 12) } := by
    unfold ElfHash.parse
    rw [if_neg (by rw [← hrest, List.length_append]; omega), hfield (by omega), hbucket,
      hfield (by omega)]
    dsimp only
    rw [hbytes]
  have hwords := hsized.words
  have hchainBytes : (parseHash hash).nchain.toNat * 4 ≤ (hash.drop 12).length := by
    rw [List.length_drop]
    omega
  have hbucketBytes : 1 * 4 ≤ (hash.drop 8).length := by
    rw [List.length_drop]
    omega
  have hkind : DynamicSections.behind m segs dynamic =
      ⟨segs.behind m off, segs.behind m dynamic.symtab, segs.behind m dynamic.strtab, []⟩ := by
    unfold DynamicSections.behind
    rw [hhash, hversion]
    rfl
  refine ⟨SymbolTable.fromDynamic
    { symtab := entries ElfSymbol.readFrom (ElfSymbol.byteSize w) (segs.behind m dynamic.symtab)
      strtab := segs.behind m dynamic.strtab
      version := none }
    (.elf
      { nbucket := 1
        nchain := field32 hash 4
        buckets := words32 ((segs.behind m off).drop 8)
        chains := words32 ((segs.behind m off).drop 12) }), ?_, ?_, ?_, hstrs, .none⟩
  · unfold SymbolTable.parse SymbolTable.ofSections ElfDynamicHashTab.parse DynamicSymbols.parse
    rw [hkind, hhash, hversion]
    dsimp only
    rw [hparse]
    rfl
  · refine .elf hsized.nbucket.symm rfl ?_ ?_
    · unfold parseHash
      dsimp only
      rw [hbucket]
      exact records_isPrefix readsOnly_field32 (by omega) hbucketBytes (drop_isPrefix hin 8)
    · unfold parseHash
      dsimp only
      rw [hbucket]
      exact records_isPrefix readsOnly_field32 (by omega) hchainBytes (drop_isPrefix hin 12)
  · exact records_isPrefix (ElfSymbol.readsOnly_readFrom hw)
      (by rcases hw with rfl | rfl <;> decide) hsized.symbols hsyms

end Tables

section File

variable {writer : DylibWriter} {order : HashOrder} {rawRelocs : List RelocEntry}
  {listed : List SymbolDesc} {u : Unplaced} {st : WriteState} {layout header : ElfLayout}
  {phdrs : List ProgramHeader} {file : List UInt8} {a₁ a₂ a₃ : SectionAllocator}

theorem createHashtable_length {symtab : SymTabMetadata} (hlen : 1 ≤ symtab.dynsym.length) :
    symtab.createHashtable.length = 12 + 4 * symtab.dynsym.length := by
  rw [createHashtable_eq hlen]
  simp only [List.length_append, word32_length, List.length_flatten, List.map_map,
    Function.comp_def, List.map_const', List.length_range, List.sum_replicate_nat]
  omega

theorem tables_sized (hc : Created writer rawRelocs listed u)
    (hs : Steps writer order u st header a₁ a₂ a₃)
    (hstub : u.symtab.Stubbed writer.arch rawRelocs listed)
    (hcount : u.symtab.dynsym.length < 2 ^ 32) :
    Sized writer.arch.bits (st.allocator .hash) (st.allocator .dynsym) := by
  obtain ⟨-, hhash, hdynsym, -, -⟩ := tables_frame hc hs
  have hcol := hstub.collected
  have harch : st.symtab.arch = writer.arch := by
    obtain ⟨-, -, dynsym, hsymtab⟩ := symtab_spec hs
    rw [hsymtab, hstub.target]
  have hone : 1 ≤ u.symtab.dynsym.length := by
    rw [hcol.dynsym]
    exact Nat.succ_pos _
  have hlength := createHashtable_length hone
  have hparse := parseHash_createHashtable hone hcount
  have hnchain : (UInt32.ofNat u.symtab.dynsym.length).toNat = u.symtab.dynsym.length :=
    UInt32.toNat_ofNat_of_lt' hcount
  have hsyms : st.symtab.dynsym.length = u.symtab.dynsym.length :=
    (dynsym_length hs hcol).trans hcol.dynsym.symm
  rw [hhash, hdynsym]
  constructor
  case header => omega
  case nbucket => rw [hparse]
  case words =>
    rw [hparse]
    dsimp only
    omega
  case symbols =>
    rw [hparse]
    dsimp only
    rw [hnchain, writeDynsym_length, hsyms, harch, symbolSize]
    cases writer.arch <;> exact Nat.le_refl _

variable {m : Bytes writer.arch.bits} {segs : ElfSegments writer.arch.bits}

/-- The symbol table of the file, read in memory. -/
theorem Emitted.symtab_parsed [CustomHasher] (he : Emitted writer st layout phdrs file)
    (hc : Created writer rawRelocs listed u) (hs : Steps writer order u st header a₁ a₂ a₃)
    (hstub : u.symtab.Stubbed writer.arch rawRelocs listed)
    (hcount : u.symtab.dynsym.length < 2 ^ 32)
    (hm : segs.Holds (programHeaders writer.arch.bits file) file m) :
    ∃ t, SymbolTable.parse m segs (st.elfDynamic writer.arch segs) = .ok t ∧
      (st.table file writer.arch.bits).GoesOn t := by
  have hstands : ∀ kind, kind ∈ [SectionKind.hash, .dynSym, .dynStr] → Stands st m segs kind := by
    intro kind hkind
    simp only [List.mem_cons, List.not_mem_nil, or_false] at hkind
    rcases hkind with rfl | rfl | rfl <;> exact he.stands hc hs hm (by simp [cores]) rfl
  have hversion : (st.elfDynamic writer.arch segs).versionIdx = none := rfl
  obtain ⟨t, hparse, hgoes⟩ := readTable_goesOn (bits_cases writer.arch)
    (tables_sized hc hs hstub hcount) rfl hversion (hstands .hash (by simp)).behind
    (hstands .dynSym (by simp)).behind (hstands .dynStr (by simp)).behind
  refine ⟨t, hparse, ?_⟩
  unfold WriteState.table
  rw [emitted_eq hc hs he.prepared he.rendered (by simp),
    emitted_eq hc hs he.prepared he.rendered (by simp),
    emitted_eq hc hs he.prepared he.rendered (by simp)]
  exact hgoes

/-- The content of a symbol stands in memory where its value says. -/
theorem Emitted.content_read (he : Emitted writer st layout phdrs file)
    (hm : segs.Holds (programHeaders writer.arch.bits file) file m) {s : SymbolDesc} {c : Content}
    {value : BitVec writer.arch.bits} (hc : st.ContentAt file s c value)
    (halloc : c.kind.isAlloc = true) :
    read m (segs.base + value) c.data.length = c.data := by
  obtain ⟨sec, hsec, i, hkind, -, hinside, hslice, rfl⟩ := hc
  obtain ⟨hread, -⟩ := he.section_at hm hsec (hkind ▸ halloc)
  rw [BitVec.ofNat_add, ← BitVec.add_assoc, read_inside m _ hinside, hread,
    ← he.prepared.contents he.rendered hsec]
  exact (slice_slice hinside).trans hslice

end File

/-! ## The image -/

section Lists

variable {α : Type} {l : List α} {p : α → Bool} {n : Nat}

theorem filter_eq_take (h : ∀ i a, l[i]? = some a → (p a = true ↔ i < n)) :
    l.filter p = l.take n := by
  have hfront : (l.take n).filter p = l.take n := by
    refine List.filter_eq_self.mpr fun a ha => ?_
    obtain ⟨i, hi⟩ := List.mem_iff_getElem?.mp ha
    rw [List.getElem?_take] at hi
    split at hi
    · rename_i hlt
      exact (h i a hi).mpr hlt
    · cases hi
  have hback : (l.drop n).filter p = [] := by
    refine List.filter_eq_nil_iff.mpr fun a ha htrue => ?_
    obtain ⟨i, hi⟩ := List.mem_iff_getElem?.mp ha
    rw [List.getElem?_drop] at hi
    have hlt := (h (n + i) a hi).mp htrue
    omega
  rw [← List.take_append_drop n l, List.filter_append, hfront, hback, List.append_nil,
    List.take_append_drop]

theorem filter_eq_drop (h : ∀ i a, l[i]? = some a → (p a = true ↔ n ≤ i)) :
    l.filter p = l.drop n := by
  have hfront : (l.take n).filter p = [] := by
    refine List.filter_eq_nil_iff.mpr fun a ha htrue => ?_
    obtain ⟨i, hi⟩ := List.mem_iff_getElem?.mp ha
    rw [List.getElem?_take] at hi
    split at hi
    · have hle := (h i a hi).mp htrue
      omega
    · cases hi
  have hback : (l.drop n).filter p = l.drop n := by
    refine List.filter_eq_self.mpr fun a ha => ?_
    obtain ⟨i, hi⟩ := List.mem_iff_getElem?.mp ha
    rw [List.getElem?_drop] at hi
    exact (h (n + i) a hi).mpr (Nat.le_add_right n i)
  conv_lhs => rw [← List.take_append_drop n l, List.filter_append, hfront, hback, List.nil_append]

end Lists

/-- The entries of the loader for relocations that the generator reports. -/
def elfRels (arch : Arch) (infos : List RelocationInfo) : List (ElfRelType arch.bits) :=
  infos.map fun info => info.elfRel arch

section File

variable {writer : DylibWriter} {order : HashOrder} {rawRelocs : List RelocEntry}
  {listed : List SymbolDesc} {u : Unplaced} {st : WriteState} {header : ElfLayout}
  {a₁ a₂ a₃ : SectionAllocator}

theorem refs_map_rel {w : Nat} (table : RelTable) (slice : RelSlice w) :
    (slice.refs table).map RelRef.rel = slice.rels := by
  apply List.ext_getElem?
  intro k
  rw [List.getElem?_map, RelSlice.refs_getElem?, Option.map_map]
  exact Option.map_id'

/-- The classes of the loader are those of the types. -/
theorem classes_split (hc : Created writer rawRelocs listed u)
    (hs : Steps writer order u st header a₁ a₂ a₃) :
    st.reloc.getRelocationInfos.filter (fun info => info.rType = writer.arch.relativeReloc) =
        st.reloc.getRelocationInfos.take st.reloc.relativeCount ∧
      st.reloc.getRelocationInfos.filter (fun info => info.rType = writer.arch.jumpSlotReloc) =
        st.reloc.getRelocationInfos.drop st.reloc.pltStart := by
  have hat : ∀ (i : Nat) (info : RelocationInfo), st.reloc.getRelocationInfos[i]? = some info →
      writer.arch.classOf info.rType = st.reloc.classAt i := by
    intro i info hi
    unfold RelocMetaData.getRelocationInfos at hi
    rw [List.getElem?_map, Option.map_eq_some_iff] at hi
    obtain ⟨r, hr, rfl⟩ := hi
    have hfinal := (final_located hc hs i r hr).classOf
    rwa [Nat.zero_add] at hfinal
  have hstart : st.reloc.pltStart = st.reloc.relativeCount + st.reloc.gotCount +
      st.reloc.copyCount + st.reloc.irelativeCount := rfl
  constructor
  · refine filter_eq_take fun i info hi => ?_
    rw [decide_eq_true_iff, ← Arch.classOf_eq.1, hat i info hi]
    unfold RelocMetaData.classAt
    split_ifs <;> simp <;> omega
  · refine filter_eq_drop fun i info hi => ?_
    rw [decide_eq_true_iff, ← Arch.classOf_eq.2.2.1, hat i info hi]
    unfold RelocMetaData.classAt
    split_ifs <;> simp <;> omega

end File

/-- What is asked of the listed symbols: names of their own, and content that is there. -/
structure WellListed (listed : List SymbolDesc) : Prop where
  nodup : (listed.map SymbolDesc.name).Nodup
  names : ∀ s ∈ listed, s.name ≠ [] ∧ 0 ∉ s.name ∧ ¬ OwnName s.name
  data : ∀ s ∈ listed, ∀ c, s.content = some c → c.data ≠ []

section Listed

variable {writer : DylibWriter} {rawRelocs : List RelocEntry} {listed : List SymbolDesc}
  {u : Unplaced} {st : WriteState} {file : List UInt8}

theorem stubbed (hcreate : writer.createSections rawRelocs listed = some u)
    (hl : WellListed listed) : u.symtab.Stubbed writer.arch rawRelocs listed ∧
      ∀ s ∈ u.symtab.symbols, 0 ∉ s.name := by
  have hc := created writer hcreate
  obtain ⟨symtab, hcollect, hsame⟩ := hc.collected
  have hstub : u.symtab.Stubbed writer.arch rawRelocs listed :=
    (SymTabMetadata.stubbed_of_collect (fun s hs => ⟨(hl.names s hs).1, (hl.names s hs).2.2⟩)
      hl.nodup hcollect).sizes hsame
  obtain ⟨b, b', hnew⟩ := hc.relocs
  exact ⟨hstub, hstub.noNul (pltRelocs_named hnew) fun s hs => (hl.names s hs).2.1⟩

/-- The tables of a file that is shorter than `2^32` bytes. -/
theorem small_of_length (hlen : file.length < 2 ^ 32) : Small st file := by
  have hle : ∀ kind, (st.emitted file kind).length ≤ file.length := by
    intro kind
    unfold WriteState.emitted
    split
    · unfold slice
      rw [List.length_take, List.length_drop]
      omega
    · exact Nat.zero_le _
  exact ⟨Nat.lt_of_le_of_lt (hle _) hlen, Nat.lt_of_le_of_lt (hle _) hlen,
    Nat.lt_of_le_of_lt (hle _) hlen⟩

end Listed

theorem write_eq_some {writer : DylibWriter} {order : HashOrder} {rawRelocs : List RelocEntry}
    {listed : List SymbolDesc} {out : ElfWriteOutput}
    (h : writer.write order rawRelocs listed = some out) :
    ∃ st, writer.prepare order rawRelocs listed = some st ∧ writer.render st = some out.data ∧
      out.relocations = st.reloc.getRelocationInfos ∧ out.baseAddr = writer.config.baseAddr ∧
      out.ifuncResolverVal = st.resolverVal := by
  unfold DylibWriter.write at h
  simp only [Option.bind_eq_bind, Option.bind_eq_some_iff, Option.pure_def,
    Option.some.injEq] at h
  obtain ⟨st, hprepare, data, hrender, rfl⟩ := h
  exact ⟨st, hprepare, hrender, rfl, rfl, rfl⟩

section Main

variable [CustomHasher]

/-- What the loader finds for a listed symbol. -/
structure FoundIn {w : Nat} (m : Bytes w) (base : BitVec w) (s : SymbolDesc) (ref : SymRef w) :
    Prop where
  bind : ref.sym.stBind = s.scope.stBind
  type : ref.sym.stType = s.symType.stType
  size : ref.sym.stSize = BitVec.ofNat w s.symSize
  undefined : ref.sym.stShndx = shnUndef ↔ s.content = none
  content : ∀ c, s.content = some c → c.kind ≠ .tls →
    read m (base + ref.sym.stValue) c.data.length = c.data

/-- The tables the loader has of a generated library. -/
structure ImageOf (writer : DylibWriter) (listed : List SymbolDesc) (out : ElfWriteOutput)
    (m : Bytes writer.arch.bits) (data : DynamicImage writer.arch.target) : Prop where
  relocations : data.relocation.entries.map RelRef.rel = elfRels writer.arch out.relocations
  relative : ∃ rels, data.relocation.relative = .rel rels ∧ rels.map RelRef.rel =
    elfRels writer.arch
      (out.relocations.filter fun info => info.rType = writer.arch.relativeReloc)
  plt : data.relocation.pltrel.map RelRef.rel = elfRels writer.arch
    (out.relocations.filter fun info => info.rType = writer.arch.jumpSlotReloc)
  found : ∀ s ∈ listed, ∃ ref, (data.core.symtab.lookup { name := s.name, version := none }
      (SymbolInfo.precompute writer.arch.bits { name := s.name, version := none })).map Prod.fst =
        .ok (some ref) ∧ FoundIn m data.core.base s ref
  absent : ∀ name, name ∉ listed.map SymbolDesc.name → ¬ OwnName name →
    (data.core.symtab.lookup { name, version := none }
      (SymbolInfo.precompute writer.arch.bits { name, version := none })).map Prod.fst = .ok none
  plain : data.lazy = true ∧ data.neededLibs = [] ∧ data.initFn = none ∧ data.initArray = none

section Image

variable {writer : DylibWriter} {order : HashOrder} {rawRelocs : List RelocEntry}
  {listed : List SymbolDesc} {u : Unplaced} {st : WriteState} {layout header : ElfLayout}
  {phdrs : List ProgramHeader} {file : List UInt8} {a₁ a₂ a₃ : SectionAllocator}
  {m : Bytes writer.arch.bits} {segs : ElfSegments writer.arch.bits}

/-- Lookups in memory answer what the table of the file answers. -/
theorem lookup_agrees {t t' : SymbolTable writer.arch.bits} (h : t.GoesOn t') {name : Name}
    {found : Option (SymRef writer.arch.bits)}
    (hlookup : (t.lookup { name, version := none }
      (SymbolInfo.precompute writer.arch.bits { name, version := none })).map Prod.fst = .ok found) :
    (t'.lookup { name, version := none }
      (SymbolInfo.precompute writer.arch.bits { name, version := none })).map Prod.fst = .ok found :=
  ((h.lookup _ _).map Prod.fst).ok hlookup

/-- Every listed symbol is found in memory. -/
theorem Emitted.symbol_found (he : Emitted writer st layout phdrs file)
    (hcreate : writer.createSections rawRelocs listed = some u)
    (hs : Steps writer order u st header a₁ a₂ a₃)
    (hm : segs.Holds (programHeaders writer.arch.bits file) file m) (hl : WellListed listed)
    (htable : TableSpec (st.table file writer.arch.bits) u.symtab st.symtab.dynsym)
    {t : SymbolTable writer.arch.bits} (hgoes : (st.table file writer.arch.bits).GoesOn t)
    {s : SymbolDesc} (hmem : s ∈ listed) :
    ∃ ref, (t.lookup { name := s.name, version := none }
      (SymbolInfo.precompute writer.arch.bits { name := s.name, version := none })).map Prod.fst =
        .ok (some ref) ∧ FoundIn m segs.base s ref := by
  have hc := created writer hcreate
  obtain ⟨hstub, hnul⟩ := stubbed hcreate hl
  have hcol := hstub.collected
  have hin : s ∈ u.symtab.symbols := by
    obtain ⟨rest, hsymbols, -⟩ := hstub.symbols
    rw [hsymbols]
    exact List.mem_append_left _ (List.mem_cons_of_mem _ hmem)
  obtain ⟨i, hi⟩ := List.mem_iff_getElem?.mp hin
  obtain ⟨sym, hsym, hlookup⟩ := lookup_symbol hs hcol htable hnul hi
  obtain ⟨sym', hsym', -, hinfo, hsize, -⟩ := placed_entry hs hcol hi
  cases hsym.symm.trans hsym'
  obtain ⟨hbind, htype⟩ := info_spec s (sym.elfSymbol writer.arch.bits) hinfo
  refine ⟨_, lookup_agrees hgoes hlookup, hbind, htype, ?_,
    undefined_iff hc hs hcol hi (hl.data s hmem) hsym, fun c hcontent hkind => ?_⟩
  · exact congrArg (BitVec.ofNat writer.arch.bits) hsize
  · refine he.content_read hm (content_at hc hs he.prepared he.rendered hstub hi hcontent
      (hl.data s hmem c hcontent) hkind (hl.names s hmem).2.2 hsym) ?_
    have hplaceable := hcol.placeable s hin c hcontent
    simp only [placeable, List.mem_cons, List.not_mem_nil, or_false] at hplaceable
    rcases hplaceable with h | h | h | h <;> rw [h] <;> rfl

/-- The image of a file in memory. -/
theorem Emitted.image (he : Emitted writer st layout phdrs file)
    (hcreate : writer.createSections rawRelocs listed = some u)
    (hs : Steps writer order u st header a₁ a₂ a₃) (hl : WellListed listed)
    (hlen : file.length < 2 ^ 32) {D : Type} {image : UninitImage writer.arch.bits D}
    (hm : image.segments.Holds (programHeaders writer.arch.bits file) file m)
    (hptr : image.dynamicPtr =
      image.segments.base + BitVec.ofNat _ (st.manager.getVaddr .dynamic)) (id : Nat)
    {out : ElfWriteOutput} (hrelocs : out.relocations = st.reloc.getRelocationInfos) :
    ∃ data, image.init writer.arch.target m id = .ok data ∧
      data.image.core.segments = image.segments ∧
      data.image.relocation = st.dynamicRelocation writer.arch image.segments ∧
      data.image.gotPlt = nonZero (st.addr writer.arch image.segments .gotPlt) ∧
      st.symtab.dynsym.map (Symbol.elfSymbol writer.arch.bits) <+: data.image.core.symtab.symtab ∧
      ImageOf writer listed out m data.image := by
  have hc := created writer hcreate
  obtain ⟨hstub, hnul⟩ := stubbed hcreate hl
  have hcol := hstub.collected
  have htable := table_spec hc hs he.prepared he.rendered hstub (small_of_length hlen)
  have hcount : u.symtab.dynsym.length < 2 ^ 32 := by
    rw [hcol.dynsym]
    exact htable.count
  have htables := he.relocTables_read hc hs hm
  have hsplit := he.split_tables hc hs hm
  obtain ⟨t, hparse, hgoes⟩ := he.symtab_parsed hc hs hstub hcount hm
  have hdynamic : ElfDynamic.new writer.arch.target m image.segments image.dynamicPtr =
      .ok (st.elfDynamic writer.arch image.segments) :=
    hptr ▸ he.dynamic_parsed hcreate hs hm
  obtain ⟨data, hinit, hreloc, hdata⟩ :=
    image.init_ok id hdynamic (htables ▸ hsplit) hparse rfl rfl rfl
  have hsymtab : data.image.core.symtab = t := by rw [hdata]
  have hbase : data.image.core.base = image.segments.base := by
    unfold ElfCore.base
    rw [hdata]
  obtain ⟨hrelative, hplt⟩ := classes_split hc hs
  have hdyn : (((st.relocTables writer.arch image.segments).dynrel.getD .empty).refs .dyn).map
      RelRef.rel = elfRels writer.arch (st.reloc.getRelocationInfos.take st.reloc.pltStart) := by
    rw [refs_map_rel, elfRels, RelocMetaData.getRelocationInfos, ← List.map_take, List.map_map]
    rfl
  have hpltRefs : (((st.relocTables writer.arch image.segments).pltrel.getD .empty).refs .plt).map
      RelRef.rel = elfRels writer.arch (st.reloc.getRelocationInfos.drop st.reloc.pltStart) := by
    rw [refs_map_rel, elfRels, RelocMetaData.getRelocationInfos, ← List.map_drop, List.map_map]
    rfl
  have hle : st.reloc.relativeCount ≤ st.reloc.pltStart := by
    unfold RelocMetaData.pltStart
    omega
  refine ⟨data, hinit, by rw [hdata], hreloc, by rw [hdata]; rfl, ?_, ?_, ?_, ?_, ?_, ?_, ?_⟩
  · rw [hsymtab, ← htable.entries]
    exact hgoes.symtab
  · rw [hreloc, hrelocs]
    unfold DynamicRelocation.entries WriteState.dynamicRelocation
    dsimp only
    rw [List.take_append_drop, List.map_append, hdyn, hpltRefs, elfRels, elfRels, elfRels,
      ← List.map_append, List.take_append_drop]
  · refine ⟨_, by rw [hreloc]; rfl, ?_⟩
    rw [hrelocs, hrelative, List.map_take, hdyn, elfRels, ← List.map_take, List.take_take,
      Nat.min_eq_left hle]
    rfl
  · rw [hreloc, hrelocs, hplt]
    exact hpltRefs
  · intro s hmem
    rw [hsymtab, hbase]
    exact he.symbol_found hcreate hs hm hl htable hgoes hmem
  · intro name hlisted hown
    rw [hsymtab]
    refine lookup_agrees hgoes (lookup_absent hs hcol htable hnul fun hmem => ?_)
    obtain ⟨s, hsmem, rfl⟩ := List.mem_map.mp hmem
    rcases hstub.mem_cases hsmem with hin | howner
    · exact hlisted (List.mem_map_of_mem hin)
    · exact hown howner.name
  · rw [hdata]
    exact ⟨rfl, rfl, rfl, rfl⟩

end Image

end Main

section Sample

/-- Pages of the loader. -/
def pageWriter : DylibWriter where
  arch := .x86_64
  config := { baseAddr := 0x1000, pageSize := 4096, ifuncResolverVal := none }

/-- A file that is read as far as it goes. -/
def fileReader (file : List UInt8) : ElfReader 64 Unit where
  read := fun len offset o =>
    let bytes := (file.drop offset.toNat).take len
    if bytes.length = len then .ok bytes o
    else .error (.panic "range end index out of range") o
  asFd := fun _ => some 3

theorem fileReader_readsFile (file : List UInt8) : ReadsFile (fileReader file) file where
  read := by
    intro len offset o bytes o' h
    unfold fileReader at h
    dsimp only at h
    split at h
    · rename_i hlen
      cases h
      exact ⟨rfl, hlen⟩
    · cases h

/-- A file ends behind its table of section headers. -/
theorem Prepared.length_le {writer : DylibWriter} {st : WriteState} {layout : ElfLayout}
    {file : List UInt8} (hp : Prepared writer st layout) (hrender : writer.render st = some file)
    {bound : Nat} (hbound : (st.manager.writeShdrs writer.arch.is64).all
      (fun table => st.layout.fileOff + table.length < bound) = true) : file.length < bound := by
  obtain ⟨shstrndx, phdrs, table, hphdrs, htable, hfile⟩ := render_eq_some hrender
  rw [htable] at hbound
  have hroom : ((writer.ehdrFields st shstrndx).flatten ++
      (phdrs.map fun p => (p.fields writer.arch.bits).flatten).flatten).length ≤
        layout.fileOff := by
    obtain ⟨hesize, hpsize, -⟩ := sizes_eq writer.arch
    have hphnum := phdrs_length hp.rSecs hp.rxSecs hp.rwSecs hp.groups hphdrs
    have hehdrLen : (writer.ehdrFields st shstrndx).flatten.length =
        ElfLoader.ehdrSize writer.arch.bits := DylibWriter.ehdrFields_length shstrndx
    rw [List.length_append, hehdrLen,
      flatten_length phdrs fun p _ => p.fields_length (bits_cases writer.arch), hphnum, ← hesize,
      ← hpsize]
    exact hp.behindHeaders
  rw [hfile]
  exact Nat.lt_of_le_of_lt (writeAll_ascending 0 hp.ascending hroom).2.1
    (of_decide_eq_true hbound)

attribute [local instance] constantHasher

/-- The file is short, and the loader loads it. -/
theorem page_runs :
    ∃ out, pageWriter.write insertionOrder sampleRelocs sampleSymbols = some out ∧
      out.data.length < 2 ^ 31 ∧ ∃ raw s', (loaderOn out.data 0x10000).load (fileReader out.data) []
        emptyState = .ok raw s' := by
  have hruns : ((pageWriter.write insertionOrder sampleRelocs sampleSymbols).map fun out =>
      Exec.returned ((loaderOn out.data 0x10000).load (fileReader out.data) [] emptyState)) =
        some true := by decide +kernel
  have hshort : ((pageWriter.prepare insertionOrder sampleRelocs sampleSymbols).all fun st =>
      (st.manager.writeShdrs true).all fun table =>
        st.layout.fileOff + table.length < 2 ^ 31) = true := by decide +kernel
  obtain ⟨out, hwrite, hload⟩ := Option.map_eq_some_iff.mp hruns
  obtain ⟨st, hprepare, hrender, -⟩ := write_eq_some hwrite
  obtain ⟨layout, hp⟩ := prepared hprepare
  rw [hprepare] at hshort
  exact ⟨out, hwrite, hp.length_le hrender hshort, Exec.exists_of_returned hload⟩

theorem page_forLoader {file : List UInt8} (h : file.length < 2 ^ 31) :
    ForLoader pageWriter file where
  page := ⟨12, Nat.le_refl _, rfl⟩
  base := Nat.dvd_refl _
  sum := by
    change 0x1000 + file.length < 2 ^ 64
    omega

theorem sample_wellListed : WellListed sampleSymbols where
  nodup := by decide
  names := by decide
  data := by
    intro s hs c hcontent
    rcases List.mem_pair.mp hs with rfl | rfl
    · cases hcontent
    · cases hcontent
      decide

end Sample

end ElfLoader.GenElf
