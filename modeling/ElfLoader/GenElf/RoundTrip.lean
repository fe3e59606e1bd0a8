import ElfLoader.GenElf.Contents
import ElfLoader.GenElf.Tables
import ElfLoader.GenElf.WellFormed

/-! # Symbols from the generator to the loader

The loader looks a name up in the hash table, the symbols and the strings of a
generated file. It finds the listed symbols with what they were listed with, and
nothing under a name that neither the list nor the generator has.
-/

namespace ElfLoader.GenElf

open ByteMemory Splice

/-! ## The tables in the file -/

/-- The bytes of the section of a kind. -/
def WriteState.emitted (st : WriteState) (file : List UInt8) (kind : SectionKind) : List UInt8 :=
  match st.manager.find kind with
  | some sec => slice file sec.offset sec.size
  | none => []

/-- The symbol table the loader has of the file. -/
def WriteState.table [CustomHasher] (st : WriteState) (file : List UInt8) (w : Nat) :
    SymbolTable w :=
  readTable w (st.emitted file .hash) (st.emitted file .dynSym) (st.emitted file .dynStr)

/-- The content stands in the file in a section of its kind, behind the contents of
the symbols before it, and `addr` is its address. -/
def WriteState.ContentAt (st : WriteState) (file : List UInt8) (s : SymbolDesc) (c : Content)
    {w : Nat} (addr : BitVec w) : Prop :=
  ∃ sec ∈ st.manager.shdrs, ∃ i, sec.header.shtype = c.kind ∧ st.symtab.symbols[i]? = some s ∧
    contentStart st.symtab.symbols i s + c.data.length ≤ sec.size ∧
    slice file (sec.offset + contentStart st.symtab.symbols i s) c.data.length = c.data ∧
    addr = BitVec.ofNat w (sec.header.addr + contentStart st.symtab.symbols i s)

/-- What the loader finds for a listed symbol. -/
structure FoundAs [CustomHasher] (st : WriteState) (file : List UInt8) {w : Nat} (s : SymbolDesc)
    (ref : SymRef w) : Prop where
  name : (st.table file w).nameAt ref.idx = .ok s.name
  bind : ref.sym.stBind = s.scope.stBind
  type : ref.sym.stType = s.symType.stType
  size : ref.sym.stSize = BitVec.ofNat w s.symSize
  undefined : ref.sym.stShndx = shnUndef ↔ s.content = none
  value : ∀ c, s.content = some c → c.kind ≠ .tls → st.ContentAt file s c ref.sym.stValue

/-! ## Names -/

theorem getStr_of_start (front : List UInt8) {symbols : List SymbolDesc} {i : Nat}
    {s : SymbolDesc} (hi : symbols[i]? = some s) (hnul : 0 ∉ s.name) :
    getStr (front ++ (symbols.map SymbolDesc.nameBytes).flatten)
      (front.length + start (symbols.map SymbolDesc.nameBytes) i) = .ok s.name := by
  obtain ⟨hlt, rfl⟩ := List.getElem?_eq_some_iff.mp hi
  have hdrop : (front ++ (symbols.map SymbolDesc.nameBytes).flatten).drop
      (front.length + start (symbols.map SymbolDesc.nameBytes) i) =
        symbols[i].name ++ 0 :: ((symbols.map SymbolDesc.nameBytes).drop (i + 1)).flatten := by
    rw [List.drop_append, List.drop_eq_nil_of_le (Nat.le_add_right _ _),
      Nat.add_sub_cancel_left, List.nil_append, drop_start _ (by rwa [List.length_map]),
      List.getElem_map, SymbolDesc.nameBytes, List.append_assoc]
    rfl
  generalize ((symbols.map SymbolDesc.nameBytes).drop (i + 1)).flatten = rest at hdrop
  have htake : (symbols[i].name ++ 0 :: rest).takeWhile (· ≠ 0) = symbols[i].name := by
    rw [List.takeWhile_append_of_pos fun b hb => ?_]
    · simp
    · have hne : b ≠ 0 := by
        rintro rfl
        exact hnul hb
      simpa using hne
  unfold getStr
  rw [hdrop, if_pos (List.mem_append_right _ List.mem_cons_self), htake]

theorem info_spec (s : SymbolDesc) {w : Nat} (sym : ElfSymbol w) (h : sym.stInfo = s.info) :
    sym.stBind = s.scope.stBind ∧ sym.stType = s.symType.stType := by
  unfold ElfSymbol.stBind ElfSymbol.stType
  rw [h]
  unfold SymbolDesc.info
  cases s.scope <;> cases s.symType <;> decide

namespace SymTabMetadata

/-- Placing a symbol leaves its name, its type and its size alone. -/
theorem placeSymbol_same {pltVaddr textVaddr dataVaddr : Nat} {shdrMap : SectionKind.Map}
    {s : SymbolDesc} {type : SectionKind} {sym sym' : Symbol}
    (h : placeSymbol pltVaddr textVaddr dataVaddr shdrMap s type sym = some sym') :
    sym'.nameIdx = sym.nameIdx ∧ sym'.info = sym.info ∧ sym'.size = sym.size := by
  unfold placeSymbol at h
  split at h
  · cases h
    exact ⟨rfl, rfl, rfl⟩
  · split at h
    · cases h
      exact ⟨rfl, rfl, rfl⟩
    · simp only [Option.bind_eq_bind, Option.bind_eq_some_iff, Option.pure_def,
        Option.some.injEq] at h
      obtain ⟨value, -, rfl⟩ := h
      exact ⟨rfl, rfl, rfl⟩

end SymTabMetadata

/-! ## The symbol table of the file -/

section Lookup

variable {writer : DylibWriter} {order : HashOrder} {rawRelocs : List RelocEntry}
  {listed : List SymbolDesc} {u : Unplaced} {st : WriteState} {layout placed : ElfLayout}
  {a₁ a₂ a₃ : SectionAllocator} {file : List UInt8} {i w : Nat} {s : SymbolDesc}

/-- A section that exists is emitted as its buffer. -/
theorem emitted_eq (hc : Created writer rawRelocs listed u)
    (hs : Steps writer order u st layout a₁ a₂ a₃) (hp : Prepared writer st placed)
    (hrender : writer.render st = some file) {kind : SectionKind}
    (hkind : kind ∈ [.text, .plt, .data, .dynStr, .dynSym, .hash]) :
    st.emitted file kind = st.allocator kind.buffer := by
  obtain ⟨sec, hsec, hfind, -, hbuffer⟩ := section_of_kind hc hs (Or.inl hkind)
  unfold WriteState.emitted
  rw [hfind, ← hbuffer]
  exact hp.contents hrender hsec

/-- The entry of a symbol when everything is placed. -/
theorem placed_entry (hs : Steps writer order u st layout a₁ a₂ a₃) (hcol : u.symtab.Collected)
    (hi : u.symtab.symbols[i]? = some s) :
    ∃ sym, st.symtab.dynsym[i + 1]? = some sym ∧
      sym.nameIdx = BitVec.ofNat 32 (2 + start (u.symtab.symbols.map SymbolDesc.nameBytes) i) ∧
      sym.info = s.info ∧ sym.size = s.symSize ∧ (s.content = none → sym.shndx = 0) := by
  obtain ⟨hupdate, -, -⟩ := symtab_spec hs
  obtain ⟨sym, hplace, hget⟩ := hcol.placed hupdate hi
  obtain ⟨hname, hinfo, hsize⟩ := SymTabMetadata.placeSymbol_same hplace
  refine ⟨sym, hget, hname, hinfo, hsize, fun hnone => ?_⟩
  rw [SymTabMetadata.placeSymbol_undefined hnone] at hplace
  cases hplace
  rfl

theorem dynsym_length (hs : Steps writer order u st layout a₁ a₂ a₃)
    (hcol : u.symtab.Collected) : st.symtab.dynsym.length = u.symtab.symbols.length + 1 := by
  obtain ⟨hupdate, -, -⟩ := symtab_spec hs
  obtain ⟨syms, hsyms, hsymtab⟩ := updateSymbolValues_spec hupdate
  have hlen := placeSymbols_length hsyms
  rw [hsymtab, List.length_append, hlen, List.length_take, List.length_drop, hcol.dynsym]
  omega

/-- The section of a content that is not empty exists. -/
theorem content_kind (hcol : u.symtab.Collected) (hi : u.symtab.symbols[i]? = some s)
    {c : Content} (hcontent : s.content = some c) (hdata : c.data ≠ []) :
    c.kind ∈ [.text, .plt, .data, .dynStr, .dynSym, .hash] ∨
      c.kind = .tls ∧ u.symtab.getTlsContent ≠ [] := by
  have hmem := List.mem_of_getElem? hi
  have hplaceable := hcol.placeable s hmem c hcontent
  simp only [placeable, List.mem_cons, List.not_mem_nil, or_false] at hplaceable
  rcases hplaceable with hkind | hkind | hkind | hkind
  · rw [hkind]
    exact Or.inl (by decide)
  · rw [hkind]
    exact Or.inl (by decide)
  · refine Or.inr ⟨hkind, fun hempty => hdata ?_⟩
    unfold SymTabMetadata.getTlsContent at hempty
    rw [SymTabMetadata.getContent_eq, List.flatten_eq_nil_iff] at hempty
    have hin : s.contentIn .tls = c.data := by
      unfold SymbolDesc.contentIn
      rw [hcontent]
      exact if_pos hkind
    rw [← hin]
    exact hempty _ (List.mem_map_of_mem hmem)
  · rw [hkind]
    exact Or.inl (by decide)

/-- The content of a listed symbol stands in the file at the address that is the
value of the symbol. -/
theorem content_at (hc : Created writer rawRelocs listed u)
    (hs : Steps writer order u st layout a₁ a₂ a₃) (hp : Prepared writer st placed)
    (hrender : writer.render st = some file)
    (hstub : u.symtab.Stubbed writer.arch rawRelocs listed)
    (hi : u.symtab.symbols[i]? = some s) {c : Content} (hcontent : s.content = some c)
    (hdata : c.data ≠ []) (hkind : c.kind ≠ .tls) (hlisted : ¬ OwnName s.name) {sym : Symbol}
    (hsym : st.symtab.dynsym[i + 1]? = some sym) :
    st.ContentAt file s c (BitVec.ofNat w sym.value) := by
  have hexists := content_kind hstub.collected hi hcontent hdata
  obtain ⟨sec, hsec, hfind, hsecKind, hbuffer⟩ := section_of_kind hc hs hexists
  obtain ⟨idx, -, -, hget⟩ := placed_defined hc hs hstub.collected hi hcontent hexists
  rw [hget] at hsym
  cases hsym
  have hsymbols : st.symtab.symbols = u.symtab.symbols := by
    obtain ⟨-, -, dynsym, hsymtab⟩ := symtab_spec hs
    rw [hsymtab]
  have hslice := content_slice hc hs hstub hi hcontent hlisted
  rw [← hbuffer, ← hp.contents hrender hsec] at hslice
  have hbuf : (slice file sec.offset sec.size).length = sec.size := by
    rw [hp.contents hrender hsec]
    exact hp.sized sec hsec
  have hend := slice_inside hslice hdata
  rw [hbuf] at hend
  rw [slice_slice hend] at hslice
  have hvaddr : st.manager.getVaddr c.kind = sec.header.addr := by
    unfold ShdrManager.getVaddr
    rw [hfind]
    rfl
  have hbase : st.base c.kind = sec.header.addr := by
    rw [← hvaddr]
    have hplaceable := hstub.collected.placeable s (List.mem_of_getElem? hi) c hcontent
    simp only [placeable, List.mem_cons, List.not_mem_nil, or_false] at hplaceable
    rcases hplaceable with h | h | h | h
    · rw [h]
      rfl
    · rw [h]
      rfl
    · exact absurd h hkind
    · rw [h]
      rfl
  refine ⟨sec, hsec, i, hsecKind, ?_, ?_, ?_, ?_⟩
  · rw [hsymbols]
    exact hi
  · rw [hsymbols]
    exact hend
  · rw [hsymbols]
    exact hslice
  · rw [hsymbols, ← hbase, Nat.add_comm]

/-- The symbol is undefined for the loader exactly when it has no content. -/
theorem undefined_iff (hc : Created writer rawRelocs listed u)
    (hs : Steps writer order u st layout a₁ a₂ a₃) (hcol : u.symtab.Collected)
    (hi : u.symtab.symbols[i]? = some s)
    (hdata : ∀ c, s.content = some c → c.data ≠ []) {sym : Symbol}
    (hsym : st.symtab.dynsym[i + 1]? = some sym) :
    (sym.elfSymbol w).stShndx = shnUndef ↔ s.content = none := by
  cases hcontent : s.content with
  | none =>
      obtain ⟨sym', hsym', -, -, -, hzero⟩ := placed_entry hs hcol hi
      rw [hsym] at hsym'
      cases hsym'
      refine iff_of_true ?_ rfl
      unfold Symbol.elfSymbol
      rw [hzero hcontent]
      rfl
  | some c =>
      obtain ⟨idx, hone, hle, hget⟩ := placed_defined hc hs hcol hi hcontent
        (content_kind hcol hi hcontent (hdata c hcontent))
      rw [hget] at hsym
      cases hsym
      refine iff_of_false (fun hzero => ?_) nofun
      have hnat := congrArg UInt16.toNat hzero
      change idx % 2 ^ 16 = 0 at hnat
      omega

/-- The sizes of the tables fit in their fields. -/
structure Small (st : WriteState) (file : List UInt8) : Prop where
  hash : (st.emitted file .hash).length < 2 ^ 32
  dynSym : (st.emitted file .dynSym).length < 2 ^ 32
  dynStr : (st.emitted file .dynStr).length < 2 ^ 32

variable [CustomHasher]

/-- The table has the placed symbols, the collected strings and one chain. -/
structure TableSpec (table : SymbolTable w) (symtab : SymTabMetadata) (syms : List Symbol) :
    Prop where
  entries : table.symtab = syms.map (Symbol.elfSymbol w)
  strtab : table.strtab = symtab.dynstr.data
  version : table.version = none
  hashtab : table.hashtab = .elf (oneChain (symtab.symbols.length + 1))
  count : symtab.symbols.length + 1 < 2 ^ 32
  strings : symtab.dynstr.data.length < 2 ^ 32

theorem table_spec (hc : Created writer rawRelocs listed u)
    (hs : Steps writer order u st layout a₁ a₂ a₃) (hp : Prepared writer st placed)
    (hrender : writer.render st = some file)
    (hstub : u.symtab.Stubbed writer.arch rawRelocs listed) (hsmall : Small st file) :
    TableSpec (st.table file writer.arch.bits) u.symtab st.symtab.dynsym := by
  obtain ⟨hdynstr, hhash, hdynsym, -, -⟩ := tables_frame hc hs
  have hcol := hstub.collected
  have harch : st.symtab.arch = writer.arch := by
    obtain ⟨-, -, dynsym, hsymtab⟩ := symtab_spec hs
    rw [hsymtab, hstub.target]
  have hlen := dynsym_length hs hcol
  have hbytesHash : st.emitted file .hash = u.symtab.createHashtable :=
    (emitted_eq hc hs hp hrender (by decide)).trans hhash
  have hbytesSym : st.emitted file .dynSym = st.symtab.writeDynsym :=
    (emitted_eq hc hs hp hrender (by decide)).trans hdynsym
  have hbytesStr : st.emitted file .dynStr = u.symtab.dynstr.data :=
    (emitted_eq hc hs hp hrender (by decide)).trans hdynstr
  have hcount : u.symtab.dynsym.length < 2 ^ 32 := by
    have hbytes := hsmall.dynSym
    rw [hbytesSym, writeDynsym_length, hlen, ← hcol.dynsym] at hbytes
    split at hbytes <;> omega
  have hstrings := hsmall.dynStr
  rw [hbytesStr] at hstrings
  have hone : 1 ≤ u.symtab.dynsym.length := by
    rw [hcol.dynsym]
    exact Nat.succ_pos _
  obtain ⟨hsymtab, hparse⟩ :=
    readTable_eq u.symtab.dynstr.data hone hcount (hlen.trans hcol.dynsym.symm)
  rw [harch] at hsymtab
  rw [hcol.dynsym] at hparse hcount
  unfold WriteState.table
  rw [hbytesHash, hbytesSym, hbytesStr]
  exact ⟨hsymtab, rfl, rfl, congrArg HashTable.elf hparse, hcount, hstrings⟩

/-- The loader reads every name as it was given. -/
theorem nameAt_eq (hs : Steps writer order u st layout a₁ a₂ a₃) (hcol : u.symtab.Collected)
    {table : SymbolTable w} (htable : TableSpec table u.symtab st.symtab.dynsym)
    (hnul : ∀ s ∈ u.symtab.symbols, 0 ∉ s.name) (hi : u.symtab.symbols[i]? = some s) :
    table.nameAt (i + 1) = .ok s.name := by
  obtain ⟨sym, hsym, hname, -⟩ := placed_entry hs hcol hi
  have hlen : i < (u.symtab.symbols.map SymbolDesc.nameBytes).length := by
    rw [List.length_map]
    exact (List.getElem?_eq_some_iff.mp hi).1
  have hend := start_end_le (u.symtab.symbols.map SymbolDesc.nameBytes) hlen
  have hstrings := htable.strings
  rw [hcol.dynstr, List.length_append] at hstrings
  have hidx : (sym.elfSymbol w).stName.toNat =
      [(0 : UInt8), 0].length + start (u.symtab.symbols.map SymbolDesc.nameBytes) i := by
    change sym.nameIdx.toNat = _
    rw [hname]
    exact Nat.mod_eq_of_lt (by
      change 2 + _ < 2 ^ 32 at hstrings
      omega)
  have hat : table.symbolAt (i + 1) = .ok (sym.elfSymbol w) := by
    rw [SymbolTable.symbolAt_ok_iff, htable.entries, List.getElem?_map, hsym]
    rfl
  have hread := getStr_of_start [0, 0] hi (hnul s (List.mem_of_getElem? hi))
  unfold SymbolTable.nameAt
  rw [hat]
  change getStr table.strtab _ = _
  rw [hidx, htable.strtab, hcol.dynstr, hread]

section Search

variable {table : SymbolTable w} (hs : Steps writer order u st layout a₁ a₂ a₃)
  (hcol : u.symtab.Collected) (htable : TableSpec table u.symtab st.symtab.dynsym)
  (hnul : ∀ s ∈ u.symtab.symbols, 0 ∉ s.name)

include hs hcol htable

theorem table_length : table.symtab.length = u.symtab.symbols.length + 1 := by
  rw [htable.entries, List.length_map, dynsym_length hs hcol]

include hnul

/-- Every entry but the first is that of a symbol. -/
theorem entry_named {idx : Nat} (hidx : 1 ≤ idx) (hlt : idx < table.symtab.length) :
    ∃ i s, idx = i + 1 ∧ u.symtab.symbols[i]? = some s ∧ table.nameAt idx = .ok s.name := by
  rw [table_length hs hcol htable] at hlt
  have hi : idx - 1 < u.symtab.symbols.length := by omega
  have hsucc : idx = idx - 1 + 1 := by omega
  refine ⟨idx - 1, _, hsucc, List.getElem?_eq_getElem hi, ?_⟩
  have hname := nameAt_eq hs hcol htable hnul (List.getElem?_eq_getElem hi)
  rwa [← hsucc] at hname

theorem table_unique : table.UniqueNames := by
  intro idx idx' hidx hlt hidx' hlt' hsame
  obtain ⟨i, s, rfl, hi, hname⟩ := entry_named hs hcol htable hnul hidx hlt
  obtain ⟨j, t, rfl, hj, hname'⟩ := entry_named hs hcol htable hnul hidx' hlt'
  rw [hname, hname'] at hsame
  have hlen : i < (u.symtab.symbols.map SymbolDesc.name).length := by
    rw [List.length_map]
    exact (List.getElem?_eq_some_iff.mp hi).1
  have heq : i = j := by
    apply (List.getElem?_inj hlen hcol.nodup).mp
    rw [List.getElem?_map, List.getElem?_map, hi, hj]
    exact congrArg some (Except.ok.inj hsame)
  rw [heq]

/-- A lookup searches a list that has every entry of the name. -/
theorem lookup_search (name : Name) :
    ∃ cs, (table.lookup { name, version := none }
        (SymbolInfo.precompute w { name, version := none })).map Prod.fst =
          Search.findFirst (table.acceptEntry { name, version := none }) cs ∧
      (∀ idx ∈ cs, 1 ≤ idx ∧ idx < table.symtab.length) ∧
      ∀ idx, 1 ≤ idx → table.nameAt idx = .ok name → idx ∈ cs := by
  have hlen := table_length hs hcol htable
  have hwf := oneChain_wellFormed table (by rw [hlen]; exact htable.count)
    fun idx hidx hlt => by
      obtain ⟨i, s, -, -, hname⟩ := entry_named hs hcol htable hnul hidx hlt
      exact ⟨s.name, hname⟩
  obtain ⟨cs, hlookup, hcs, hall⟩ :=
    SymbolTable.elfLookup_eq_findFirst { name, version := none } hwf
  refine ⟨cs, ?_, hcs, hall⟩
  rw [← hlookup, hlen]
  have hfst : ∀ (x : Except Halt (Option (SymRef w))) (f : Option (SymRef w) → PreCompute w),
      Except.map Prod.fst (x.bind fun found => .ok (found, f found)) = x := by
    intro x f
    cases x <;> rfl
  unfold SymbolTable.lookup
  rw [htable.hashtab]
  exact hfst _ _

theorem lookup_symbol (hi : u.symtab.symbols[i]? = some s) :
    ∃ sym, st.symtab.dynsym[i + 1]? = some sym ∧
      (table.lookup { name := s.name, version := none }
        (SymbolInfo.precompute w { name := s.name, version := none })).map Prod.fst =
          .ok (some ⟨i + 1, sym.elfSymbol w⟩) := by
  obtain ⟨sym, hsym, -⟩ := placed_entry hs hcol hi
  obtain ⟨cs, hlookup, hcs, hall⟩ := lookup_search hs hcol htable hnul s.name
  have hname := nameAt_eq hs hcol htable hnul hi
  have hentry : table.symtab[i + 1]? = some (sym.elfSymbol w) := by
    rw [htable.entries, List.getElem?_map, hsym]
    rfl
  refine ⟨sym, hsym, ?_⟩
  rw [hlookup, SymbolTable.findFirst_acceptEntry_of_mem (table_unique hs hcol htable hnul)
    (fun idx hidx hlt => ?_) hcs (Nat.succ_pos i) hentry hname,
    if_pos (hall (i + 1) (Nat.succ_pos i) hname)]
  obtain ⟨i, s, -, -, hname⟩ := entry_named hs hcol htable hnul hidx hlt
  exact ⟨s.name, hname⟩

theorem lookup_absent {name : Name} (habsent : name ∉ u.symtab.symbols.map SymbolDesc.name) :
    (table.lookup { name, version := none }
      (SymbolInfo.precompute w { name, version := none })).map Prod.fst = .ok none := by
  obtain ⟨cs, hlookup, hcs, -⟩ := lookup_search hs hcol htable hnul name
  rw [hlookup]
  refine SymbolTable.findFirst_acceptEntry_of_absent (fun idx hidx hlt => ?_) hcs
    fun idx hidx hlt hsame => ?_
  · obtain ⟨i, s, -, -, hname⟩ := entry_named hs hcol htable hnul hidx hlt
    exact ⟨s.name, hname⟩
  · obtain ⟨i, s, -, hi, hname⟩ := entry_named hs hcol htable hnul hidx hlt
    rw [hname] at hsame
    cases hsame
    exact habsent (List.mem_map_of_mem (List.mem_of_getElem? hi))

end Search

end Lookup

/-- Listed symbols are found as they were listed, with the address of their content
as the value; under other names only the generator's symbols are found. Sizes and
addresses are what fits in their fields. -/
theorem symbols_round_trip [CustomHasher] {writer : DylibWriter} {order : HashOrder}
    {rawRelocs : List RelocEntry} {listed : List SymbolDesc} {st : WriteState}
    {out : ElfWriteOutput} (hprepare : writer.prepare order rawRelocs listed = some st)
    (hwrite : writer.write order rawRelocs listed = some out)
    (hnodup : (listed.map SymbolDesc.name).Nodup)
    (hnames : ∀ s ∈ listed, s.name ≠ [] ∧ 0 ∉ s.name ∧ ¬ OwnName s.name)
    (hdata : ∀ s ∈ listed, ∀ c, s.content = some c → c.data ≠ [])
    (hsmall : Small st out.data) :
    (∀ s ∈ listed, ∃ ref, ((st.table out.data writer.arch.bits).lookup
        { name := s.name, version := none }
        (SymbolInfo.precompute writer.arch.bits { name := s.name, version := none })).map
          Prod.fst = .ok (some ref) ∧ FoundAs st out.data s ref) ∧
      ∀ name, name ∉ listed.map SymbolDesc.name → ¬ OwnName name →
        ((st.table out.data writer.arch.bits).lookup { name, version := none }
          (SymbolInfo.precompute writer.arch.bits { name, version := none })).map Prod.fst =
            .ok none := by
  unfold DylibWriter.write at hwrite
  rw [hprepare] at hwrite
  simp only [Option.bind_eq_bind, Option.bind_some, Option.bind_eq_some_iff, Option.pure_def,
    Option.some.injEq] at hwrite
  obtain ⟨file, hrender, rfl⟩ := hwrite
  dsimp only at hsmall ⊢
  obtain ⟨placed, hp⟩ := prepared hprepare
  obtain ⟨u, layout, a₁, a₂, a₃, hc, hs⟩ := prepare_steps hprepare
  obtain ⟨symtab, hcollect, hsame⟩ := hc.collected
  have hstub : u.symtab.Stubbed writer.arch rawRelocs listed :=
    (SymTabMetadata.stubbed_of_collect (fun s hs => ⟨(hnames s hs).1, (hnames s hs).2.2⟩) hnodup
      hcollect).sizes hsame
  obtain ⟨b, b', hnew⟩ := hc.relocs
  have hnul := hstub.noNul (pltRelocs_named hnew) fun s hs => (hnames s hs).2.1
  have htable := table_spec hc hs hp hrender hstub hsmall
  have hcol := hstub.collected
  refine ⟨fun s hmem => ?_, fun name hlisted hown => ?_⟩
  · have hin : s ∈ u.symtab.symbols := by
      obtain ⟨rest, hsymbols, -⟩ := hstub.symbols
      rw [hsymbols]
      exact List.mem_append_left _ (List.mem_cons_of_mem _ hmem)
    obtain ⟨i, hi⟩ := List.mem_iff_getElem?.mp hin
    obtain ⟨sym, hsym, hlookup⟩ := lookup_symbol hs hcol htable hnul hi
    obtain ⟨sym', hsym', -, hinfo, hsize, -⟩ := placed_entry hs hcol hi
    rw [hsym] at hsym'
    cases hsym'
    obtain ⟨hbind, htype⟩ := info_spec s (sym.elfSymbol writer.arch.bits) hinfo
    refine ⟨_, hlookup, nameAt_eq hs hcol htable hnul hi, hbind, htype, ?_,
      undefined_iff hc hs hcol hi (hdata s hmem) hsym, fun c hcontent hkind => ?_⟩
    · exact congrArg (BitVec.ofNat writer.arch.bits) hsize
    · exact content_at hc hs hp hrender hstub hi hcontent (hdata s hmem c hcontent) hkind
        (hnames s hmem).2.2 hsym
  · refine lookup_absent hs hcol htable hnul fun hmem => ?_
    obtain ⟨s, hsmem, rfl⟩ := List.mem_map.mp hmem
    rcases hstub.mem_cases hsmem with hin | howner
    · exact hlisted (List.mem_map_of_mem hin)
    · exact hown howner.name

section Sample

attribute [local instance] constantHasher

theorem sample_round_trip :
    ∃ st out, sampleWriter.prepare insertionOrder sampleRelocs sampleSymbols = some st ∧
      sampleWriter.write insertionOrder sampleRelocs sampleSymbols = some out ∧
      (∃ ref, ((st.table out.data 64).lookup { name := ascii "x", version := none }
        (SymbolInfo.precompute 64 { name := ascii "x", version := none })).map Prod.fst =
          .ok (some ref) ∧
        FoundAs st out.data (SymbolDesc.globalObject (ascii "x") [1, 2, 3]) ref) ∧
      ((st.table out.data 64).lookup { name := ascii "y", version := none }
        (SymbolInfo.precompute 64 { name := ascii "y", version := none })).map Prod.fst =
          .ok none := by
  have hruns : ((sampleWriter.prepare insertionOrder sampleRelocs sampleSymbols).bind fun st =>
      (sampleWriter.write insertionOrder sampleRelocs sampleSymbols).map fun out =>
        [SectionKind.hash, .dynSym, .dynStr].all fun kind =>
          decide ((st.emitted out.data kind).length < 2 ^ 32)) = some true := by decide +kernel
  obtain ⟨st, hprepare, hrest⟩ := Option.bind_eq_some_iff.mp hruns
  obtain ⟨out, hwrite, hsmall⟩ := Option.map_eq_some_iff.mp hrest
  have hlen := fun kind hkind => of_decide_eq_true (List.all_eq_true.mp hsmall kind hkind)
  have hdata : ∀ s ∈ sampleSymbols, ∀ c, s.content = some c → c.data ≠ [] := by
    intro s hs c hcontent
    rcases List.mem_pair.mp hs with rfl | rfl
    · cases hcontent
    · cases hcontent
      decide
  obtain ⟨hlisted, hother⟩ := symbols_round_trip hprepare hwrite (by decide) (by decide)
    hdata ⟨hlen .hash (by decide), hlen .dynSym (by decide), hlen .dynStr (by decide)⟩
  exact ⟨st, out, hprepare, hwrite,
    hlisted (SymbolDesc.globalObject (ascii "x") [1, 2, 3]) (by decide),
    hother (ascii "y") (by decide) (by decide)⟩

/-- A description may state a size that no field of a 32-bit file can hold. -/
def largeSymbol : SymbolDesc :=
  { SymbolDesc.globalObject (ascii "x") [1, 2, 3] with size := some (2 ^ 32 + 3) }

def narrowWriter : DylibWriter := { sampleWriter with arch := .x86 }

theorem narrow_size_differs :
    ∃ st out ref, narrowWriter.prepare insertionOrder [] [largeSymbol] = some st ∧
      narrowWriter.write insertionOrder [] [largeSymbol] = some out ∧ Small st out.data ∧
      ((st.table out.data 32).lookup { name := largeSymbol.name, version := none }
        (SymbolInfo.precompute 32 { name := largeSymbol.name, version := none })).map Prod.fst =
          .ok (some ref) ∧
      ref.sym.stSize.toNat ≠ largeSymbol.symSize := by
  have hruns : ((narrowWriter.prepare insertionOrder [] [largeSymbol]).bind fun st =>
      (narrowWriter.write insertionOrder [] [largeSymbol]).bind fun out =>
        (((st.table out.data 32).lookup { name := largeSymbol.name, version := none }
          (SymbolInfo.precompute 32 { name := largeSymbol.name, version := none })).map
            Prod.fst).toOption.bind fun found => found.map fun ref =>
              decide (ref.sym.stSize.toNat ≠ largeSymbol.symSize) &&
                [SectionKind.hash, .dynSym, .dynStr].all fun kind =>
                  decide ((st.emitted out.data kind).length < 2 ^ 32)) = some true := by
    decide +kernel
  obtain ⟨st, hprepare, hrest⟩ := Option.bind_eq_some_iff.mp hruns
  obtain ⟨out, hwrite, hrest⟩ := Option.bind_eq_some_iff.mp hrest
  obtain ⟨found, hlookup, hrest⟩ := Option.bind_eq_some_iff.mp hrest
  obtain ⟨ref, rfl, hboth⟩ := Option.map_eq_some_iff.mp hrest
  obtain ⟨hsize, htables⟩ := (Bool.and_eq_true _ _).mp hboth
  have hlen := fun kind hkind => of_decide_eq_true (List.all_eq_true.mp htables kind hkind)
  refine ⟨st, out, ref, hprepare, hwrite, ⟨hlen .hash (by decide), hlen .dynSym (by decide),
    hlen .dynStr (by decide)⟩, ?_, of_decide_eq_true hsize⟩
  generalize ((st.table out.data 32).lookup _ _).map Prod.fst = r at hlookup ⊢
  cases r with
  | error e => cases hlookup
  | ok found =>
      cases hlookup
      rfl

end Sample

end ElfLoader.GenElf
