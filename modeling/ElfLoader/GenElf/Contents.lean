import ElfLoader.GenElf.Collect
import ElfLoader.GenElf.Output

/-! # Where the symbols of a generated library are

When the sections are placed, every defined symbol gets the address of its content,
and of the contents only the code of the generator is patched afterwards.
-/

namespace ElfLoader.GenElf

open ByteMemory Splice Partial

/-! ## The sections by kind -/

section Kinds

variable {manager : ShdrManager} {kind : SectionKind}

/-- One step of `get_shdr_map`. -/
def recordKind (map : SectionKind.Map) (sec : Section × Nat) : SectionKind.Map :=
  Function.update map sec.1.header.shtype (some (sec.2 + 1))

theorem recordKind_self (map : SectionKind.Map) (sec : Section × Nat) :
    recordKind map sec sec.1.header.shtype = some (sec.2 + 1) := Function.update_self _ _ _

theorem recordKind_other (map : SectionKind.Map) {sec : Section × Nat}
    (h : kind ≠ sec.1.header.shtype) : recordKind map sec kind = map kind :=
  Function.update_of_ne h _ _

/-- An index of the map is that of a section of the kind. -/
theorem foldl_shdrMap {l : List (Section × Nat)} {map : SectionKind.Map} {idx : Nat}
    (h : l.foldl recordKind map kind = some idx) :
    map kind = some idx ∨ ∃ sec ∈ l, sec.1.header.shtype = kind ∧ idx = sec.2 + 1 := by
  induction l generalizing map with
  | nil => exact Or.inl h
  | cons sec l ih =>
      rw [List.foldl_cons] at h
      rcases ih h with hmap | ⟨sec', hmem, hkind, hidx⟩
      · by_cases hkind : kind = sec.1.header.shtype
        · subst hkind
          rw [recordKind_self] at hmap
          exact Or.inr ⟨sec, List.mem_cons_self, rfl, (Option.some.inj hmap).symm⟩
        · rw [recordKind_other map hkind] at hmap
          exact Or.inl hmap
      · exact Or.inr ⟨sec', List.mem_cons_of_mem _ hmem, hkind, hidx⟩

theorem foldl_shdrMap_ne_none {l : List (Section × Nat)} {map : SectionKind.Map}
    (h : map kind ≠ none ∨ ∃ sec ∈ l, sec.1.header.shtype = kind) :
    l.foldl recordKind map kind ≠ none := by
  induction l generalizing map with
  | nil =>
      rcases h with hmap | ⟨sec, hmem, -⟩
      · exact hmap
      · exact absurd hmem List.not_mem_nil
  | cons sec l ih =>
      rw [List.foldl_cons]
      apply ih
      by_cases hkind : kind = sec.1.header.shtype
      · subst hkind
        rw [recordKind_self]
        exact Or.inl nofun
      · rw [recordKind_other map hkind]
        rcases h with hmap | ⟨sec', hmem, hsec⟩
        · exact Or.inl hmap
        · rcases List.mem_cons.mp hmem with rfl | hin
          · exact absurd hsec.symm hkind
          · exact Or.inr ⟨sec', hin, hsec⟩

/-- A kind has an index exactly when there is a section of it. -/
theorem getShdrMap_of_find {sec : Section} (hfind : manager.find kind = some sec)
    (hcount : manager.shdrs.length ≤ 14) :
    ∃ idx, manager.getShdrMap kind = some idx ∧ 1 ≤ idx ∧ idx ≤ 14 := by
  have hmem := List.mem_of_find?_eq_some hfind
  have hdecide := List.find?_some hfind
  have hkind : sec.header.shtype = kind := of_decide_eq_true hdecide
  obtain ⟨i, hi⟩ := List.mem_iff_getElem?.mp hmem
  have hentry : manager.shdrs.zipIdx[i]? = some (sec, i) := by
    rw [List.getElem?_zipIdx, hi, Nat.zero_add]
    rfl
  have hsome : manager.getShdrMap kind ≠ none :=
    foldl_shdrMap_ne_none (Or.inr ⟨(sec, i), List.mem_of_getElem? hentry, hkind⟩)
  obtain ⟨idx, hidx⟩ := Option.ne_none_iff_exists'.mp hsome
  refine ⟨idx, hidx, ?_⟩
  rcases foldl_shdrMap hidx with hmap | ⟨⟨sec', j⟩, hmem', -, rfl⟩
  · cases hmap
  · obtain ⟨k, hk⟩ := List.mem_iff_getElem?.mp hmem'
    rw [List.getElem?_zipIdx] at hk
    obtain ⟨sec'', hget, heq⟩ := Option.map_eq_some_iff.mp hk
    have hlt := (List.getElem?_eq_some_iff.mp hget).1
    cases heq
    dsimp only
    omega

end Kinds

/-! ## The symbols when the sections are placed -/

theorem placeSymbols_getElem? {place : SymbolDesc → SectionKind → Symbol → Option Symbol}
    {symbols : List SymbolDesc} {types : List SectionKind} {syms placed : List Symbol}
    (h : SymTabMetadata.placeSymbols place symbols types syms = some placed) {i : Nat}
    {s : SymbolDesc} {type : SectionKind} {sym : Symbol} (hs : symbols[i]? = some s)
    (htype : types[i]? = some type) (hsym : syms[i]? = some sym) :
    ∃ sym', place s type sym = some sym' ∧ placed[i]? = some sym' := by
  induction syms generalizing symbols types placed i with
  | nil => cases hsym
  | cons first syms ih =>
      cases symbols with
      | nil => cases h
      | cons s₀ symbols =>
          cases types with
          | nil => cases h
          | cons type₀ types =>
              rw [SymTabMetadata.placeSymbols] at h
              simp only [Option.bind_eq_bind, Option.bind_eq_some_iff, Option.pure_def,
                Option.some.injEq] at h
              obtain ⟨sym', hplace, rest, hrest, rfl⟩ := h
              cases i with
              | zero =>
                  cases hs
                  cases htype
                  cases hsym
                  exact ⟨sym', hplace, rfl⟩
              | succ i => exact ih hrest hs htype hsym

namespace SymTabMetadata

variable {symtab symtab' : SymTabMetadata} {pltVaddr textVaddr dataVaddr : Nat}
  {shdrMap : SectionKind.Map}

/-- Every symbol is placed with its own description. -/
theorem Collected.placed (hc : Collected symtab)
    (h : symtab.updateSymbolValues pltVaddr textVaddr dataVaddr shdrMap = some symtab') {i : Nat}
    {s : SymbolDesc} (hs : symtab.symbols[i]? = some s) :
    ∃ sym, placeSymbol pltVaddr textVaddr dataVaddr shdrMap s s.shdrType
        (entryAt symtab.symbols i s) = some sym ∧ symtab'.dynsym[i + 1]? = some sym := by
  obtain ⟨placed, hplaced, rfl⟩ := updateSymbolValues_spec h
  obtain ⟨hsym, htype⟩ := hc.entry i s hs
  obtain ⟨sym, hplace, hget⟩ := placeSymbols_getElem? hplaced hs
    (by rw [List.getElem?_drop, Nat.add_comm]; exact htype)
    (by rw [List.getElem?_drop, Nat.add_comm]; exact hsym)
  refine ⟨sym, hplace, ?_⟩
  have htake : (symtab.dynsym.take 1).length = 1 := by
    rw [List.length_take, hc.dynsym]
    omega
  rw [List.getElem?_append_right (by omega), htake]
  exact hget

theorem placeSymbol_undefined {s : SymbolDesc} {type : SectionKind} {sym : Symbol}
    (h : s.content = none) :
    placeSymbol pltVaddr textVaddr dataVaddr shdrMap s type sym = some sym := by
  unfold placeSymbol
  rw [h]
  rfl

/-- The address from which the values of a section count. -/
def baseOf (pltVaddr textVaddr dataVaddr : Nat) : SectionKind → Nat
  | .text => textVaddr
  | .data => dataVaddr
  | .plt => pltVaddr
  | _ => 0

theorem placeSymbol_defined {s : SymbolDesc} {c : Content} {sym sym' : Symbol} {idx : Nat}
    (hcontent : s.content = some c) (hidx : shdrMap c.kind = some idx)
    (h : placeSymbol pltVaddr textVaddr dataVaddr shdrMap s s.shdrType sym = some sym') :
    sym' = { sym with
      shndx := BitVec.ofNat 16 idx
      value := sym.value + baseOf pltVaddr textVaddr dataVaddr c.kind } := by
  have htype : s.shdrType = c.kind := by
    unfold SymbolDesc.shdrType
    rw [hcontent]
  unfold placeSymbol at h
  rw [hcontent, htype, hidx] at h
  simp only [Option.isNone_some, Bool.false_eq_true, if_false, Option.bind_eq_bind,
    Option.bind_eq_some_iff, Option.pure_def, Option.some.injEq] at h
  obtain ⟨value, hvalue, rfl⟩ := h
  obtain ⟨-, rfl⟩ := addU64_eq_some_iff.mp hvalue
  rfl

end SymTabMetadata

/-! ## Where the sections are -/

/-- The buffer of a section. -/
def SectionKind.buffer : SectionKind → SectionId
  | .text => .text
  | .plt => .plt
  | .data => .data
  | .tls => .tls
  | .dynStr => .dynstr
  | .dynSym => .dynsym
  | .hash => .hash
  | .relaDyn | .relDyn => .relDyn
  | .relaPlt | .relPlt => .relPlt
  | .got => .got
  | .gotPlt => .gotPlt
  | .dynamic => .dynamic
  | .shStrTab | .null => .shstrtab

theorem cores_buffer (len : SectionId → Nat) (isRela is64 tls : Bool) :
    ∀ c ∈ cores len isRela is64 tls, c.2.2.2 = c.1.buffer := by
  cases isRela <;> cases is64 <;> cases tls <;> simp [cores, SectionKind.buffer]

/-- The sections that every library has, and the one of the thread-local contents
if there are some. -/
theorem cores_kinds (len : SectionId → Nat) (isRela is64 tls : Bool) {kind : SectionKind}
    (h : kind ∈ [.text, .plt, .data, .dynStr, .dynSym, .hash] ∨ kind = .tls ∧ tls = true) :
    kind ∈ (cores len isRela is64 tls).map Prod.fst := by
  rcases h with hmem | ⟨rfl, rfl⟩
  · simp only [List.mem_cons, List.not_mem_nil, or_false] at hmem
    cases isRela <;> rcases hmem with rfl | rfl | rfl | rfl | rfl | rfl <;> simp [cores]
  · simp [cores]

section Frames

variable {a a' : SectionAllocator} {reloc reloc' : RelocMetaData} {symtab symtab' : SymTabMetadata}
  {id target : SectionId}

/-! ## The buffers that the patches leave alone -/

/-- The buffers of the relocations. -/
def SectionId.isTable : SectionId → Bool
  | .got | .gotPlt | .relDyn | .relPlt => true
  | _ => false

theorem SectionId.isTable_ne (hid : id.isTable = false) (htarget : target.isTable = true) :
    id ≠ target := by
  rintro rfl
  rw [hid] at htarget
  cases htarget

theorem storeWord_frame {is64 : Bool} {off value : Nat}
    (h : RelocMetaData.storeWord is64 target off value a = some a') (hid : id ≠ target) :
    a' id = a id := by
  unfold RelocMetaData.storeWord at h
  rw [Option.map_eq_some_iff] at h
  obtain ⟨content, -, rfl⟩ := h
  exact SectionAllocator.set_other _ _ hid

theorem storeWordIf_frame {c is64 : Bool} {off value : Nat}
    (h : RelocMetaData.storeWordIf c is64 target off value a = some a') (hid : id ≠ target) :
    a' id = a id := by
  unfold RelocMetaData.storeWordIf at h
  split at h
  · exact storeWord_frame h hid
  · cases h
    rfl

theorem patchGot_frame {dynVaddr pltVaddr : Nat}
    (h : reloc.patchGot dynVaddr pltVaddr a = some a') (hid : id.isTable = false) :
    a' id = a id := by
  have hgot := SectionId.isTable_ne hid (show SectionId.got.isTable = true from rfl)
  have hgotPlt := SectionId.isTable_ne hid (show SectionId.gotPlt.isTable = true from rfl)
  unfold RelocMetaData.patchGot at h
  simp only [Option.bind_eq_bind, Option.bind_eq_some_iff] at h
  obtain ⟨a₁, h₁, a₂, h₂, hloop⟩ := h
  have hrest : a' id = a₂ id :=
    foldlM_invariant (fun a a' : SectionAllocator => a' id = a id) (fun _ => rfl)
      (fun h h' => h'.trans h) (fun _ _ _ _ h => storeWord_frame h hgotPlt) hloop
  rw [hrest, storeWord_frame h₂ hgotPlt, storeWord_frame h₁ hgot]

theorem patchOne_frame {vaddrs : RelocMetaData.Vaddrs} {i : Nat} {r r' : Reloc}
    (h : reloc.patchOne vaddrs symtab i r a = some (r', a')) (hid : id.isTable = false) :
    a' id = a id := by
  have hgot := SectionId.isTable_ne hid (show SectionId.got.isTable = true from rfl)
  have hgotPlt := SectionId.isTable_ne hid (show SectionId.gotPlt.isTable = true from rfl)
  have hrelDyn := SectionId.isTable_ne hid (show SectionId.relDyn.isTable = true from rfl)
  have hrelPlt := SectionId.isTable_ne hid (show SectionId.relPlt.isTable = true from rfl)
  unfold RelocMetaData.patchOne at h
  simp only [Option.bind_eq_bind, Option.bind_eq_some_iff, Option.pure_def, Option.some.injEq,
    Prod.mk.injEq] at h
  obtain ⟨addend, -, a₁, hslot, a₂, hstore, offset, -, -, rfl⟩ := h
  rw [SectionAllocator.set_other, storeWordIf_frame hstore hgot, storeWordIf_frame hslot hgotPlt]
  split
  · exact hrelDyn
  · exact hrelPlt

theorem patchFrom_frame {vaddrs : RelocMetaData.Vaddrs} {i : Nat} {rs rs' : List Reloc}
    (h : reloc.patchFrom vaddrs symtab i rs a = some (rs', a')) (hid : id.isTable = false) :
    a' id = a id := by
  induction rs generalizing i a rs' with
  | nil =>
      cases h
      rfl
  | cons r rs ih =>
      obtain ⟨r', a₁, rest, hone, hrest, rfl⟩ := patchFrom_cons h
      rw [ih hrest, patchOne_frame hone hid]

theorem patchAll_frame {manager : ShdrManager}
    (h : reloc.patchAll manager symtab a = some (reloc', a')) (hid : id.isTable = false) :
    a' id = a id := by
  unfold RelocMetaData.patchAll at h
  simp only [Option.bind_eq_bind, Option.bind_eq_some_iff] at h
  obtain ⟨a₁, hgot, h⟩ := h
  unfold RelocMetaData.patchReloc at h
  simp only [Option.bind_eq_bind, Option.bind_eq_some_iff, Option.pure_def, Option.some.injEq,
    Prod.mk.injEq] at h
  obtain ⟨⟨relocs, a₂⟩, hloop, -, rfl⟩ := h
  have hrelDyn := SectionId.isTable_ne hid (show SectionId.relDyn.isTable = true from rfl)
  have hrelPlt := SectionId.isTable_ne hid (show SectionId.relPlt.isTable = true from rfl)
  dsimp only
  rw [patchFrom_frame hloop hid, SectionAllocator.set_other _ _ hrelPlt,
    SectionAllocator.set_other _ _ hrelDyn, patchGot_frame hgot hid]

end Frames

/-! ## The code of the generator -/

/-- A section's contents changed, but not those of the symbols whose names the
generator does not make. -/
structure KeepsListed (symbols : List SymbolDesc) (kind : SectionKind) (l l' : List UInt8) :
    Prop where
  length : l'.length = l.length
  slice : ∀ (i : Nat) (hi : i < symbols.length), ¬ OwnName symbols[i].name →
    slice l' (start (symbols.map (SymbolDesc.contentIn kind)) i) (symbols[i].contentIn kind).length =
      slice l (start (symbols.map (SymbolDesc.contentIn kind)) i) (symbols[i].contentIn kind).length

namespace KeepsListed

variable {symbols : List SymbolDesc} {kind : SectionKind} {l l' l'' : List UInt8}

theorem refl : KeepsListed symbols kind l l := ⟨rfl, fun _ _ _ => rfl⟩

theorem trans (h : KeepsListed symbols kind l l') (h' : KeepsListed symbols kind l' l'') :
    KeepsListed symbols kind l l'' :=
  ⟨h'.length.trans h.length, fun i hi hown => (h'.slice i hi hown).trans (h.slice i hi hown)⟩

/-- A patch inside the code of one of the generator's symbols. -/
theorem of_patched {j : Nat} (hj : j < symbols.length) (hown : OwnName symbols[j].name)
    (h : Patched (start (symbols.map (SymbolDesc.contentIn kind)) j)
      (start (symbols.map (SymbolDesc.contentIn kind)) j + (symbols[j].contentIn kind).length)
      l l') : KeepsListed symbols kind l l' where
  length := h.length
  slice := by
    intro i hi hlisted
    have hne : i ≠ j := by
      rintro rfl
      exact hlisted hown
    have hapart := start_apart (symbols.map (SymbolDesc.contentIn kind)) (j := i) (k := j)
      (by rwa [List.length_map]) (by rwa [List.length_map]) hne
    rw [List.getElem_map, List.getElem_map] at hapart
    exact h.slice_eq hapart

end KeepsListed

/-! ## The placed sections and symbols -/

theorem SymTabMetadata.Stubbed.sizes {arch : Arch} {raw : List RelocEntry}
    {listed : List SymbolDesc} {symtab symtab' : SymTabMetadata} {dynsymSize dynstrSize hashSize : Nat}
    (h : symtab.Stubbed arch raw listed)
    (hsame : symtab' = { symtab with dynstrSize := dynstrSize, dynsymSize := dynsymSize,
                                     hashSize := hashSize }) :
    symtab'.Stubbed arch raw listed := by
  rw [hsame]
  exact
    { collected := { h.collected with }
      target := h.target
      symbols := h.symbols
      helpers := fun e he => (h.helpers e he).of_symbols rfl
      entries := fun e he => (h.entries e he).of_symbols rfl
      plt0 := fun idx hidx => (h.plt0 idx hidx).of_symbols rfl }

/-- The resolver is found under its name. -/
theorem SymTabMetadata.Stubbed.resolver {arch : Arch} {raw : List RelocEntry}
    {listed : List SymbolDesc} {symtab : SymTabMetadata} (h : symtab.Stubbed arch raw listed)
    {idx : Nat} (hidx : symtab.symIndex ifuncResolverName = some idx) :
    symtab.HasOwn arch raw .text (getIfuncResolverCode arch).length idx := by
  obtain ⟨i, s, rfl, hs, hname⟩ := h.collected.indexed _ idx hidx (by decide)
  obtain ⟨rest, hsymbols, -⟩ := h.symbols
  have hfirst : symtab.symbols[0]? = some (resolverDesc arch) := by
    rw [hsymbols]
    rfl
  have hlt : i < (symtab.symbols.map SymbolDesc.name).length := by
    rw [List.length_map]
    exact (List.getElem?_eq_some_iff.mp hs).1
  have hzero : i = 0 := by
    apply (List.getElem?_inj hlt h.collected.nodup).mp
    rw [List.getElem?_map, List.getElem?_map, hs, hfirst]
    exact congrArg some hname
  subst hzero
  rw [hfirst] at hs
  cases hs
  exact ⟨0, resolverDesc arch, getIfuncResolverCode arch, rfl, hfirst, .resolver, rfl, rfl⟩

section Located

variable {writer : DylibWriter} {order : HashOrder} {rawRelocs : List RelocEntry}
  {listed : List SymbolDesc} {u : Unplaced} {st : WriteState} {layout : ElfLayout}
  {a₁ a₂ a₃ : SectionAllocator}

/-- A kind of section that exists is found, with its buffer. -/
theorem section_of_core (hc : Created writer rawRelocs listed u)
    (hs : Steps writer order u st layout a₁ a₂ a₃) {kind : SectionKind}
    (hkind : kind ∈ (cores u.sizeOf writer.arch.isRela writer.arch.is64
      (!u.symtab.getTlsContent.isEmpty)).map Prod.fst) :
    ∃ sec ∈ st.manager.shdrs, st.manager.find kind = some sec ∧ sec.header.shtype = kind ∧
      sec.data = kind.buffer := by
  obtain ⟨core, hcore, hfst⟩ := List.mem_map.mp hkind
  obtain ⟨sec, hsec, hcoreEq⟩ := List.mem_map.mp ((placed_cores hc hs).mem_iff.mpr hcore)
  have hsecKind : sec.header.shtype = kind := by
    rw [← hfst, ← hcoreEq]
    rfl
  cases hfind : st.manager.find kind with
  | none => exact absurd (decide_eq_true hsecKind) (List.find?_eq_none.mp hfind sec hsec)
  | some found =>
      have hmem := List.mem_of_find?_eq_some hfind
      have hdecide := List.find?_some hfind
      have hfound : found.header.shtype = kind := of_decide_eq_true hdecide
      refine ⟨found, hmem, rfl, hfound, ?_⟩
      rw [← hfound]
      exact cores_buffer _ _ _ _ found.core (core_mem hc hs hmem)

theorem section_of_kind (hc : Created writer rawRelocs listed u)
    (hs : Steps writer order u st layout a₁ a₂ a₃) {kind : SectionKind}
    (hkind : kind ∈ [.text, .plt, .data, .dynStr, .dynSym, .hash] ∨
      kind = .tls ∧ u.symtab.getTlsContent ≠ []) :
    ∃ sec ∈ st.manager.shdrs, st.manager.find kind = some sec ∧ sec.header.shtype = kind ∧
      sec.data = kind.buffer :=
  section_of_core hc hs (cores_kinds u.sizeOf writer.arch.isRela writer.arch.is64
    (!u.symtab.getTlsContent.isEmpty) (hkind.imp id fun h => ⟨h.1, by simpa using h.2⟩))

/-- The table of symbols is the collected one with the values that are addresses. -/
theorem symtab_spec (hs : Steps writer order u st layout a₁ a₂ a₃) :
    u.symtab.updateSymbolValues (st.manager.getVaddr .plt) (st.manager.getVaddr .text)
        (st.manager.getVaddr .data) st.manager.getShdrMap = some st.symtab ∧
      a₁ = u.allocator.set .dynsym st.symtab.writeDynsym ∧
      ∃ dynsym, st.symtab = { u.symtab with dynsym := dynsym } := by
  have h := hs.symtab
  unfold SymTabMetadata.patchSymtab at h
  simp only [Option.bind_eq_bind, Option.bind_eq_some_iff, Option.pure_def, Option.some.injEq,
    Prod.mk.injEq] at h
  obtain ⟨updated, hupdate, rfl, rfl⟩ := h
  obtain ⟨placed, -, hsymtab⟩ := updateSymbolValues_spec hupdate
  exact ⟨hupdate, rfl, _, hsymtab⟩

/-- The address of a section with contents, from which the values of its symbols
count. -/
def WriteState.base (st : WriteState) (kind : SectionKind) : Nat :=
  SymTabMetadata.baseOf (st.manager.getVaddr .plt) (st.manager.getVaddr .text)
    (st.manager.getVaddr .data) kind

/-- A symbol whose section exists has the index of the section, and the address of
its content as its value. -/
theorem placed_defined (hc : Created writer rawRelocs listed u)
    (hs : Steps writer order u st layout a₁ a₂ a₃) (hcol : u.symtab.Collected) {i : Nat}
    {s : SymbolDesc} {c : Content} (hi : u.symtab.symbols[i]? = some s)
    (hcontent : s.content = some c)
    (hkind : c.kind ∈ [.text, .plt, .data, .dynStr, .dynSym, .hash] ∨
      c.kind = .tls ∧ u.symtab.getTlsContent ≠ []) :
    ∃ idx, 1 ≤ idx ∧ idx ≤ 14 ∧ st.symtab.dynsym[i + 1]? = some
      { entryAt u.symtab.symbols i s with
        shndx := BitVec.ofNat 16 idx
        value := contentStart u.symtab.symbols i s + st.base c.kind } := by
  obtain ⟨hupdate, -, -⟩ := symtab_spec hs
  obtain ⟨sec, -, hfind, -, -⟩ := section_of_kind hc hs hkind
  have hcount : st.manager.shdrs.length ≤ 14 := by
    have hlen := (placed_cores hc hs).length_eq
    have hcores := (cores_spec u.sizeOf writer.arch.isRela writer.arch.is64
      (!u.symtab.getTlsContent.isEmpty)).2.2
    rw [List.length_map] at hlen
    omega
  obtain ⟨idx, hidx, hone, hle⟩ := getShdrMap_of_find hfind hcount
  obtain ⟨sym, hplace, hget⟩ := hcol.placed hupdate hi
  refine ⟨idx, hone, hle, ?_⟩
  rw [hget, SymTabMetadata.placeSymbol_defined hcontent hidx hplace]
  rfl

/-- The code of the generator's symbols stands where their values say, so a patch
of it keeps all listed symbols. -/
theorem keeps_of_own (hc : Created writer rawRelocs listed u)
    (hs : Steps writer order u st layout a₁ a₂ a₃) (hcol : u.symtab.Collected)
    {kind : SectionKind} (hkind : kind = .text ∨ kind = .plt) {idx size value off : Nat}
    (hown : u.symtab.HasOwn writer.arch rawRelocs kind size idx)
    (hvalue : st.symtab.getSymValue idx = some value)
    (hoff : subU64 value (st.base kind) = some off) {l l' : List UInt8}
    (hp : Patched off (off + size) l l') : KeepsListed u.symtab.symbols kind l l' := by
  obtain ⟨i, s, code, rfl, hi, hownS, hcontent, hlen⟩ := hown
  have hexists : kind ∈ [.text, .plt, .data, .dynStr, .dynSym, .hash] := by
    rcases hkind with rfl | rfl <;> decide
  obtain ⟨idx, -, -, hget⟩ := placed_defined hc hs hcol hi hcontent (Or.inl hexists)
  obtain ⟨hlt, hsi⟩ := List.getElem?_eq_some_iff.mp hi
  unfold SymTabMetadata.getSymValue at hvalue
  rw [hget] at hvalue
  obtain rfl := (Option.some.inj hvalue).symm
  obtain ⟨-, rfl⟩ := subU64_eq_some_iff.mp hoff
  have hstart : contentStart u.symtab.symbols i s =
      start (u.symtab.symbols.map (SymbolDesc.contentIn kind)) i := by
    unfold contentStart
    rw [hcontent]
  have hin : u.symtab.symbols[i].contentIn kind = code := by
    unfold SymbolDesc.contentIn
    rw [hsi, hcontent]
    exact if_pos rfl
  dsimp only at hp
  rw [Nat.add_sub_cancel, hstart] at hp
  refine .of_patched hlt (by rw [hsi]; exact hownS.name) ?_
  rw [hin, hlen]
  exact hp

/-- The patches of `.text` keep the listed symbols. -/
theorem text_kept (hc : Created writer rawRelocs listed u)
    (hs : Steps writer order u st layout a₁ a₂ a₃)
    (hstub : u.symtab.Stubbed writer.arch rawRelocs listed) {data data₁ data₂ : List UInt8}
    {targetVaddr gotVaddr : Nat}
    (hifunc : st.symtab.patchIfunc data (st.manager.getVaddr .text) targetVaddr = some data₁)
    (hhelpers : st.symtab.patchHelpers order data₁ (st.manager.getVaddr .text) gotVaddr =
      some data₂) : KeepsListed u.symtab.symbols .text data data₂ := by
  obtain ⟨-, -, dynsym, hsymtab⟩ := symtab_spec hs
  have hindex : st.symtab.symIndex = u.symtab.symIndex := by rw [hsymtab]
  have hhelper : st.symtab.helperIndex = u.symtab.helperIndex := by rw [hsymtab]
  have harch : st.symtab.arch = writer.arch := by rw [hsymtab, hstub.target]
  have hfirst : KeepsListed u.symtab.symbols .text data data₁ := by
    unfold SymTabMetadata.patchIfunc at hifunc
    cases hidx : st.symtab.symIndex ifuncResolverName with
    | none =>
        rw [hidx] at hifunc
        cases hifunc
        exact .refl
    | some idx =>
        rw [hidx] at hifunc
        simp only [Option.bind_eq_bind, Option.bind_eq_some_iff] at hifunc
        obtain ⟨value, hvalue, off, hoff, hpatch⟩ := hifunc
        rw [hindex] at hidx
        rw [harch] at hpatch
        exact keeps_of_own hc hs hstub.collected (Or.inl rfl) (hstub.resolver hidx) hvalue hoff
          (patchIfuncResolver_patched hpatch)
  refine hfirst.trans ?_
  unfold SymTabMetadata.patchHelpers at hhelpers
  refine foldlM_invariant (KeepsListed u.symtab.symbols .text) (fun _ => .refl)
    (fun h h' => h.trans h') (fun entry hentry l l' hstep => ?_) hhelpers
  have hmem : entry ∈ u.symtab.helperIndex := by
    rw [← hhelper]
    exact (order.perm _).mem_iff.mp hentry
  simp only [SymTabMetadata.patchOneHelper, Option.bind_eq_bind, Option.bind_eq_some_iff] at hstep
  obtain ⟨target, -, value, hvalue, off, hoff, hpatch⟩ := hstep
  rw [harch] at hpatch
  exact keeps_of_own hc hs hstub.collected (Or.inl rfl) (hstub.helpers entry hmem) hvalue hoff
    (patchHelper_patched hpatch)

/-- The patches of `.plt` keep the listed symbols. -/
theorem plt_kept (hc : Created writer rawRelocs listed u)
    (hs : Steps writer order u st layout a₁ a₂ a₃)
    (hstub : u.symtab.Stubbed writer.arch rawRelocs listed) {data data' : List UInt8}
    {gotPltVaddr : Nat}
    (h : st.symtab.patchPlt data (st.manager.getVaddr .plt) gotPltVaddr = some data') :
    KeepsListed u.symtab.symbols .plt data data' := by
  obtain ⟨-, -, dynsym, hsymtab⟩ := symtab_spec hs
  have hplt0 : st.symtab.plt0Idx = u.symtab.plt0Idx := by rw [hsymtab]
  have hentries : st.symtab.pltEntries = u.symtab.pltEntries := by rw [hsymtab]
  have harch : st.symtab.arch = writer.arch := by rw [hsymtab, hstub.target]
  unfold SymTabMetadata.patchPlt at h
  obtain ⟨data₁, hhead, hloop⟩ := Option.bind_eq_some_iff.mp h
  have hfirst : KeepsListed u.symtab.symbols .plt data data₁ := by
    unfold SymTabMetadata.patchHead at hhead
    cases hidx : st.symtab.plt0Idx with
    | none =>
        rw [hidx] at hhead
        cases hhead
        exact .refl
    | some idx =>
        rw [hidx] at hhead
        simp only [Option.bind_eq_bind, Option.bind_eq_some_iff] at hhead
        obtain ⟨value, hvalue, off, hoff, hpatch⟩ := hhead
        rw [hplt0] at hidx
        rw [harch] at hpatch
        exact keeps_of_own hc hs hstub.collected (Or.inr rfl) (hstub.plt0 idx hidx) hvalue hoff
          (patchPlt0_patched hpatch)
  refine hfirst.trans ?_
  refine foldlM_invariant (KeepsListed u.symtab.symbols .plt) (fun _ => .refl)
    (fun h h' => h.trans h') (fun entry hentry l l' hstep => ?_) hloop
  rw [hentries] at hentry
  simp only [SymTabMetadata.patchEntry, Option.bind_eq_bind, Option.bind_eq_some_iff] at hstep
  obtain ⟨value, hvalue, off, hoff, target, -, hpatch⟩ := hstep
  rw [harch] at hpatch
  exact keeps_of_own hc hs hstub.collected (Or.inr rfl) (hstub.entries entry hentry) hvalue hoff
    (patchPltEntry_patched hpatch)

/-- What the last patches leave of the buffers that are no tables. -/
theorem allocator_frame (hc : Created writer rawRelocs listed u)
    (hs : Steps writer order u st layout a₁ a₂ a₃) {id : SectionId} (hid : id.isTable = false)
    (hdynamic : id ≠ .dynamic) : st.allocator id = a₂ id := by
  have hlast := (patchDynamic_length hs.dynamic (fun id => dynamic_id hc hs)
    (by rw [hc.dynArch, hc.dynTags])).2 id hdynamic
  rw [hlast, patchAll_frame hs.reloc hid]

/-- The tables of the symbols are not patched after the sections are placed. -/
theorem tables_frame (hc : Created writer rawRelocs listed u)
    (hs : Steps writer order u st layout a₁ a₂ a₃) :
    st.allocator .dynstr = u.symtab.dynstr.data ∧ st.allocator .hash = u.symtab.createHashtable ∧
      st.allocator .dynsym = st.symtab.writeDynsym ∧
      st.allocator .data = u.symtab.getDataContent ++ List.replicate u.reloc.totalCopySize 0 ∧
      st.allocator .tls = u.symtab.getTlsContent := by
  obtain ⟨-, ha₁, -⟩ := symtab_spec hs
  have h := hs.text
  unfold CodeMetaData.patchText at h
  simp only [Option.bind_eq_bind, Option.bind_eq_some_iff, Option.pure_def, Option.some.injEq] at h
  obtain ⟨text₁, -, text₂, -, plt, -, ha₂⟩ := h
  have hcode : ∀ id, id ≠ .text → id ≠ .plt → a₂ id = a₁ id := by
    intro id htext hplt
    rw [← ha₂, SectionAllocator.set_other _ _ hplt, SectionAllocator.set_other _ _ htext]
  have hkept : ∀ id, id.isTable = false → id ≠ .dynamic → id ≠ .text → id ≠ .plt →
      id ≠ .dynsym → st.allocator id = u.allocator id := by
    intro id htable hdynamic htext hplt hdynsym
    rw [allocator_frame hc hs htable hdynamic, hcode id htext hplt, ha₁,
      SectionAllocator.set_other _ _ hdynsym]
  refine ⟨?_, ?_, ?_, ?_, ?_⟩
  · rw [hkept .dynstr rfl (by decide) (by decide) (by decide) (by decide), hc.dynstr]
  · rw [hkept .hash rfl (by decide) (by decide) (by decide) (by decide), hc.hash]
  · rw [allocator_frame hc hs rfl (by decide), hcode .dynsym (by decide) (by decide), ha₁,
      SectionAllocator.set_self]
  · rw [hkept .data rfl (by decide) (by decide) (by decide) (by decide), hc.data]
  · rw [hkept .tls rfl (by decide) (by decide) (by decide) (by decide), hc.tls]

/-- The two buffers of code keep the listed symbols. -/
theorem code_kept (hc : Created writer rawRelocs listed u)
    (hs : Steps writer order u st layout a₁ a₂ a₃)
    (hstub : u.symtab.Stubbed writer.arch rawRelocs listed) :
    KeepsListed u.symtab.symbols .text u.symtab.getTextContent (st.allocator .text) ∧
      KeepsListed u.symtab.symbols .plt u.symtab.getPltContent (st.allocator .plt) := by
  obtain ⟨-, ha₁, -⟩ := symtab_spec hs
  have h := hs.text
  unfold CodeMetaData.patchText at h
  simp only [Option.bind_eq_bind, Option.bind_eq_some_iff, Option.pure_def, Option.some.injEq] at h
  obtain ⟨text₁, hifunc, text₂, hhelpers, plt, hplt, ha₂⟩ := h
  have htext₁ : a₁ .text = u.symtab.getTextContent := by
    rw [ha₁, SectionAllocator.set_other _ _ (by decide), hc.text]
  have hplt₁ : a₁ .plt = u.symtab.getPltContent := by
    rw [ha₁, SectionAllocator.set_other _ _ (by decide), hc.plt]
  rw [htext₁] at hifunc
  rw [hplt₁] at hplt
  constructor
  · rw [allocator_frame hc hs rfl (by decide), ← ha₂, SectionAllocator.set_other _ _ (by decide),
      SectionAllocator.set_self]
    exact text_kept hc hs hstub hifunc hhelpers
  · rw [allocator_frame hc hs rfl (by decide), ← ha₂, SectionAllocator.set_self]
    exact plt_kept hc hs hstub hplt

/-- The content of a listed symbol stands in the buffer of its section, where the
contents of the symbols before it end. -/
theorem content_slice (hc : Created writer rawRelocs listed u)
    (hs : Steps writer order u st layout a₁ a₂ a₃)
    (hstub : u.symtab.Stubbed writer.arch rawRelocs listed) {i : Nat} {s : SymbolDesc} {c : Content}
    (hi : u.symtab.symbols[i]? = some s) (hcontent : s.content = some c)
    (hlisted : ¬ OwnName s.name) :
    slice (st.allocator c.kind.buffer) (contentStart u.symtab.symbols i s) c.data.length =
      c.data := by
  obtain ⟨hlt, hsi⟩ := List.getElem?_eq_some_iff.mp hi
  have hstart : contentStart u.symtab.symbols i s =
      start (u.symtab.symbols.map (SymbolDesc.contentIn c.kind)) i := by
    unfold contentStart
    rw [hcontent]
  have hin : u.symtab.symbols[i].contentIn c.kind = c.data := by
    unfold SymbolDesc.contentIn
    rw [hsi, hcontent]
    exact if_pos rfl
  have hlen : i < (u.symtab.symbols.map (SymbolDesc.contentIn c.kind)).length := by
    rwa [List.length_map]
  -- before the patches the contents are one behind the other
  have hbefore : slice (u.symtab.getContent c.kind) (contentStart u.symtab.symbols i s)
      c.data.length = c.data := by
    have hslice := slice_flatten (u.symtab.symbols.map (SymbolDesc.contentIn c.kind)) hlen
    rwa [List.getElem_map, hin, ← SymTabMetadata.getContent_eq, ← hstart] at hslice
  have hend : contentStart u.symtab.symbols i s + c.data.length ≤
      (u.symtab.getContent c.kind).length := by
    have hle := start_end_le (u.symtab.symbols.map (SymbolDesc.contentIn c.kind)) hlen
    rwa [List.getElem_map, hin, ← SymTabMetadata.getContent_eq, ← hstart] at hle
  have hkept : ∀ {kind l'}, kind = c.kind → KeepsListed u.symtab.symbols kind
      (u.symtab.getContent kind) l' →
        slice l' (contentStart u.symtab.symbols i s) c.data.length = c.data := by
    rintro kind l' rfl hkeeps
    have hslice := hkeeps.slice i hlt (by rwa [hsi])
    rw [hin, ← hstart, hbefore] at hslice
    exact hslice
  obtain ⟨htext, hplt⟩ := code_kept hc hs hstub
  obtain ⟨-, -, -, hdata, htls⟩ := tables_frame hc hs
  have hplaceable := hstub.collected.placeable s (List.mem_of_getElem? hi) c hcontent
  simp only [placeable, List.mem_cons, List.not_mem_nil, or_false] at hplaceable
  rcases hplaceable with hkind | hkind | hkind | hkind
  · rw [hkind]
    exact hkept hkind.symm htext
  · rw [hkind] at hbefore hend ⊢
    change slice (st.allocator .data) _ _ = _
    rw [hdata]
    exact (slice_append_left hend).trans hbefore
  · rw [hkind] at hbefore ⊢
    change slice (st.allocator .tls) _ _ = _
    rw [htls]
    exact hbefore
  · rw [hkind]
    exact hkept hkind.symm hplt

end Located

end ElfLoader.GenElf
