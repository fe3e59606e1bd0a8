import ElfLoader.GenElf.Writer
import ElfLoader.Library.Partial

/-! # Buffers keep the sizes the headers state

The sizes in the section headers are fixed before the sections are placed. The
patches that follow rewrite buffers, but none changes the length of one.
-/

namespace ElfLoader.GenElf

open ByteMemory Splice Partial

/-- What placing and naming a section leaves alone. -/
def Section.core (sec : Section) : SectionKind × Nat × Nat × SectionId :=
  (sec.header.shtype, sec.header.size, sec.header.addralign, sec.data)

theorem SectionAllocator.set_self (allocator : SectionAllocator) (id : SectionId)
    (content : List UInt8) : allocator.set id content id = content :=
  Function.update_self _ _ _

theorem SectionAllocator.set_other (allocator : SectionAllocator) {id id' : SectionId}
    (content : List UInt8) (h : id' ≠ id) : allocator.set id content id' = allocator id' :=
  Function.update_of_ne h _ _

/-! ## The headers before they are placed -/

theorem foldl_addSection (secs : List Section) (manager : ShdrManager) :
    (secs.foldl ShdrManager.addSection manager).shdrs = manager.shdrs ++ secs := by
  induction secs generalizing manager with
  | nil => exact (List.append_nil _).symm
  | cons sec secs ih =>
      rw [List.foldl_cons, ih, ShdrManager.addSection, List.append_assoc]
      rfl

theorem nameSections_core (secs : List Section) (shstrtab : StringTable)
    (nameToOff : Name → Option Nat) :
    (ShdrManager.nameSections shstrtab nameToOff secs).1.map Section.core =
      secs.map Section.core := by
  induction secs generalizing shstrtab nameToOff with
  | nil => rfl
  | cons sec secs ih =>
      unfold ShdrManager.nameSections
      dsimp only
      split
      · rw [List.map_cons, List.map_cons, ih]
        rfl
      · rw [List.map_cons, List.map_cons, ih]
        rfl

theorem createShstrtab_core (manager : ShdrManager) (a : SectionAllocator) :
    (manager.createShstrtabSection a).1.shdrs.map Section.core =
      manager.shdrs.map Section.core ++
        [(.shStrTab, ((manager.createShstrtabSection a).2 .shstrtab).length, 1, .shstrtab)] := by
  unfold ShdrManager.createShstrtabSection
  dsimp only
  rw [ShdrManager.addSection, List.map_append, nameSections_core, SectionAllocator.set_self]
  rfl

/-- The sections in the order they are created; a section without thread-local
content is left out. -/
def cores (len : SectionId → Nat) (isRela is64 : Bool) (tls : Bool) :
    List (SectionKind × Nat × Nat × SectionId) :=
  let align := if is64 then 8 else 4
  [(.text, len .text, 16, .text), (.plt, len .plt, 16, .plt), (.data, len .data, 8, .data)] ++
    (if tls then [(.tls, len .tls, 8, .tls)] else []) ++
    [(.dynStr, len .dynstr, 1, .dynstr), (.dynSym, len .dynsym, 8, .dynsym),
      (.hash, len .hash, 4, .hash),
      (if isRela then .relaDyn else .relDyn, len .relDyn, align, .relDyn),
      (if isRela then .relaPlt else .relPlt, len .relPlt, align, .relPlt),
      (.got, len .got, 8, .got), (.gotPlt, len .gotPlt, 8, .gotPlt),
      (.dynamic, len .dynamic, 8, .dynamic), (.shStrTab, len .shstrtab, 1, .shstrtab)]

/-- The tags of the dynamic section. -/
def dynTags (isRela : Bool) : List (BitVec 64) :=
  [dtStrtab, dtStrsz, dtSymtab, dtSyment, dtHash] ++
    (if isRela then [dtRela, dtRelasz, dtRelaent, dtRelacount]
      else [dtRel, dtRelsz, dtRelent, dtRelcount]) ++
    [dtJmprel, dtPltrelsz, dtPltrel, dtPltgot, dtNull]

/-- The size a header gets when it is created. The buffers of the dynamic section
and of the relocations have their content later. -/
def Unplaced.sizeOf (u : Unplaced) : SectionId → Nat
  | .dynamic => u.dynMeta.size
  | id => (u.allocator id).length

/-- What the first steps leave behind: one symbol table and one list of relocations
behind all buffers. -/
structure Created (writer : DylibWriter) (rawRelocs : List RelocEntry)
    (symbols : List SymbolDesc) (u : Unplaced) : Prop where
  collected : ∃ symtab, SymTabMetadata.collect writer.arch symbols rawRelocs = some symtab ∧
    u.symtab = { symtab with dynstrSize := u.symtab.dynstrSize, dynsymSize := u.symtab.dynsymSize,
                             hashSize := u.symtab.hashSize }
  relocs : ∃ a a', RelocMetaData.new writer.arch rawRelocs u.symtab a = some (u.reloc, a')
  dynstr : u.allocator .dynstr = u.symtab.dynstr.data
  dynsym : u.allocator .dynsym = u.symtab.writeDynsym
  hash : u.allocator .hash = u.symtab.createHashtable
  text : u.allocator .text = u.symtab.getTextContent
  plt : u.allocator .plt = u.symtab.getPltContent
  data : u.allocator .data =
    u.symtab.getDataContent ++ List.replicate u.reloc.totalCopySize 0
  tls : u.allocator .tls = u.symtab.getTlsContent
  relDyn : u.allocator .relDyn = List.replicate u.reloc.relDynSize 0
  relPlt : u.allocator .relPlt = List.replicate u.reloc.relPltSize 0
  got : u.allocator .got = List.replicate u.reloc.gotSize 0
  gotPlt : u.allocator .gotPlt = List.replicate u.reloc.gotPltSize 0
  cores : u.manager.shdrs.map Section.core = cores u.sizeOf writer.arch.isRela writer.arch.is64
    (!u.symtab.getTlsContent.isEmpty)
  dynArch : u.dynMeta.arch = writer.arch
  dynTags : u.dynMeta.dynEntries.map DynamicEntry.tag = dynTags writer.arch.isRela

section Create

variable {arch : Arch} {symbols : List SymbolDesc} {raw : List RelocEntry}
  {symtab : SymTabMetadata} {reloc : RelocMetaData} {a a' : SectionAllocator} {id : SectionId}

/-- The sizes in the table are those of the buffers. -/
theorem SymTabMetadata.new_spec (h : SymTabMetadata.new arch symbols raw a = some (symtab, a')) :
    (∃ symtab₀, SymTabMetadata.collect arch symbols raw = some symtab₀ ∧
      symtab = { symtab₀ with dynstrSize := symtab.dynstrSize, dynsymSize := symtab.dynsymSize,
                              hashSize := symtab.hashSize }) ∧
      symtab.dynstrSize = symtab.dynstr.data.length ∧
      symtab.dynsymSize = symtab.writeDynsym.length ∧
      symtab.hashSize = symtab.createHashtable.length ∧
      a' = ((a.set .dynstr symtab.dynstr.data).set .dynsym symtab.writeDynsym).set .hash
        symtab.createHashtable := by
  simp only [SymTabMetadata.new, Option.bind_eq_bind, Option.bind_eq_some_iff, Option.pure_def,
    Option.some.injEq, Prod.mk.injEq] at h
  obtain ⟨symtab₀, hcollect, rfl, rfl⟩ := h
  exact ⟨⟨symtab₀, hcollect, rfl⟩, rfl, rfl, rfl, rfl⟩

theorem RelocMetaData.new_allocator (h : RelocMetaData.new arch raw symtab a = some (reloc, a')) :
    reloc.arch = arch ∧ a' = (((a.set .relDyn (List.replicate reloc.relDynSize 0)).set .relPlt
      (List.replicate reloc.relPltSize 0)).set .got
      (List.replicate reloc.gotSize 0)).set .gotPlt (List.replicate reloc.gotPltSize 0) := by
  unfold RelocMetaData.new at h
  simp only [Option.bind_eq_bind, Option.bind_eq_some_iff, Option.pure_def, Option.some.injEq,
    Prod.mk.injEq] at h
  obtain ⟨relative, -, got, -, copy, -, irelative, -, plt, -, rfl, rfl⟩ := h
  exact ⟨rfl, rfl⟩

theorem DataMetaData.new_content (reloc : RelocMetaData) (symtab : SymTabMetadata)
    (a : SectionAllocator) : (DataMetaData.new reloc symtab a).2 .data =
      symtab.getDataContent ++ List.replicate reloc.totalCopySize 0 := by
  unfold DataMetaData.new
  dsimp only
  rw [SectionAllocator.set_self]
  split
  · simp [resize]
  · have hzero : reloc.totalCopySize = 0 := by omega
    rw [hzero]
    exact (List.append_nil _).symm

theorem DataMetaData.new_frame (reloc : RelocMetaData) (symtab : SymTabMetadata)
    (a : SectionAllocator) (h : id ≠ .data) : (DataMetaData.new reloc symtab a).2 id = a id :=
  a.set_other _ h

theorem CodeMetaData.new_frame (symtab : SymTabMetadata) (a : SectionAllocator) (ht : id ≠ .text)
    (hp : id ≠ .plt) : (CodeMetaData.new symtab a).2 id = a id := by
  unfold CodeMetaData.new
  dsimp only
  rw [SectionAllocator.set_other _ _ hp, SectionAllocator.set_other _ _ ht]

theorem TlsMetaData.new_content (symtab : SymTabMetadata) (h : a .tls = []) :
    (TlsMetaData.new symtab a).2 .tls = symtab.getTlsContent := by
  unfold TlsMetaData.new
  dsimp only
  split
  · rename_i hempty
    exact h.trans (List.isEmpty_iff.mp hempty).symm
  · exact a.set_self .tls _

theorem TlsMetaData.new_frame (symtab : SymTabMetadata) (a : SectionAllocator) (h : id ≠ .tls) :
    (TlsMetaData.new symtab a).2 id = a id := by
  unfold TlsMetaData.new
  dsimp only
  split
  · rfl
  · exact Function.update_of_ne h _ _

theorem TlsMetaData.createSection_eq (symtab : SymTabMetadata) (a : SectionAllocator) :
    (TlsMetaData.new symtab a).1.createSection =
      if symtab.getTlsContent.isEmpty then []
      else [.unplaced .tls symtab.getTlsContent.length 8 .tls] := by
  unfold TlsMetaData.new
  dsimp only
  split <;> rfl

theorem DynamicMetadata.new_tags (arch : Arch) (data : DataMetaData) (text : CodeMetaData)
    (symtab : SymTabMetadata) (a : SectionAllocator) (hreloc : reloc.arch = arch) :
    (DynamicMetadata.new arch (text.createSections ++ data.createSections ++
      (TlsMetaData.new symtab a).1.createSection ++ symtab.createSections ++
      reloc.createSections)).dynEntries.map DynamicEntry.tag = dynTags arch.isRela := by
  rw [TlsMetaData.createSection_eq]
  unfold RelocMetaData.createSections
  rw [hreloc]
  cases symtab.getTlsContent.isEmpty <;> cases arch <;> rfl

end Create

theorem created (writer : DylibWriter) {rawRelocs : List RelocEntry} {symbols : List SymbolDesc}
    {u : Unplaced} (h : writer.createSections rawRelocs symbols = some u) :
    Created writer rawRelocs symbols u := by
  unfold DylibWriter.createSections at h
  simp only [Option.bind_eq_bind, Option.bind_eq_some_iff] at h
  obtain ⟨⟨symtab, a₁⟩, hsymtab, ⟨reloc, a₂⟩, hreloc, h⟩ := h
  obtain ⟨harch, ha₂⟩ := RelocMetaData.new_allocator hreloc
  obtain ⟨hcollected, hstr, hsym, hhash, ha₁⟩ := SymTabMetadata.new_spec hsymtab
  dsimp only at h harch ha₂ ha₁ hcollected hreloc
  generalize hd : DataMetaData.new reloc symtab a₂ = d at h
  generalize hc : CodeMetaData.new symtab d.2 = c at h
  generalize ht : TlsMetaData.new symtab c.2 = t at h
  -- the buffers that the later steps do not touch
  have hframe : ∀ id, id ≠ .tls → id ≠ .text → id ≠ .plt → id ≠ .data → t.2 id = a₂ id := by
    intro id htls htext hplt hdata
    rw [← ht, TlsMetaData.new_frame _ _ htls, ← hc, CodeMetaData.new_frame _ _ htext hplt, ← hd,
      DataMetaData.new_frame _ _ _ hdata]
  have htls : t.2 .tls = symtab.getTlsContent := by
    rw [← ht]
    apply TlsMetaData.new_content
    rw [← hc, CodeMetaData.new_frame _ _ (by decide) (by decide), ← hd,
      DataMetaData.new_frame _ _ _ (by decide), ha₂, ha₁]
    rfl
  have hdata : t.2 .data = symtab.getDataContent ++ List.replicate reloc.totalCopySize 0 := by
    rw [← ht, TlsMetaData.new_frame _ _ (by decide), ← hc,
      CodeMetaData.new_frame _ _ (by decide) (by decide), ← hd, DataMetaData.new_content]
  have htext : t.2 .text = symtab.getTextContent := by
    rw [← ht, TlsMetaData.new_frame _ _ (by decide), ← hc]
    rfl
  have hplt : t.2 .plt = symtab.getPltContent := by
    rw [← ht, TlsMetaData.new_frame _ _ (by decide), ← hc]
    rfl
  have hrest : ∀ id, id ≠ .tls → id ≠ .text → id ≠ .plt → id ≠ .data → t.2 id =
      ((((((SectionAllocator.new.set .dynstr symtab.dynstr.data).set .dynsym symtab.writeDynsym).set .hash
        symtab.createHashtable).set .relDyn (List.replicate reloc.relDynSize 0)).set .relPlt
      (List.replicate reloc.relPltSize 0)).set .got
      (List.replicate reloc.gotSize 0)).set .gotPlt (List.replicate reloc.gotPltSize 0) id := by
    intro id h₁ h₂ h₃ h₄
    rw [hframe id h₁ h₂ h₃ h₄, ha₂, ha₁]
  have htags := DynamicMetadata.new_tags writer.arch d.1 c.1 symtab c.2 harch
  have hsection := TlsMetaData.createSection_eq symtab c.2
  rw [ht] at htags hsection
  have hsizes : d.1.dataSize = (t.2 .data).length ∧ c.1.textSize = (t.2 .text).length ∧
      c.1.pltSize = (t.2 .plt).length := by
    rw [hdata, htext, hplt, ← hc, ← DataMetaData.new_content reloc symtab a₂, ← hd]
    exact ⟨rfl, rfl, rfl⟩
  rw [Option.pure_def, Option.some.injEq] at h
  have halloc : ∀ id, id ≠ .shstrtab → u.allocator id = t.2 id := by
    intro id hid
    rw [← h]
    exact SectionAllocator.set_other _ _ hid
  have hsymtab' : u.symtab = symtab := by rw [← h]
  have hreloc' : u.reloc = reloc := by rw [← h]
  have hkept : ∀ id, id ≠ .tls → id ≠ .text → id ≠ .plt → id ≠ .data → id ≠ .shstrtab →
      u.allocator id = ((((((SectionAllocator.new.set .dynstr symtab.dynstr.data).set .dynsym
        symtab.writeDynsym).set .hash symtab.createHashtable).set .relDyn
        (List.replicate reloc.relDynSize 0)).set .relPlt
        (List.replicate reloc.relPltSize 0)).set .got
        (List.replicate reloc.gotSize 0)).set .gotPlt (List.replicate reloc.gotPltSize 0) id :=
    fun id h₁ h₂ h₃ h₄ h₅ => (halloc id h₅).trans (hrest id h₁ h₂ h₃ h₄)
  constructor
  case collected => rw [hsymtab']; exact hcollected
  case relocs => rw [hsymtab', hreloc']; exact ⟨_, _, hreloc⟩
  case dynstr =>
    rw [hsymtab']
    exact hkept .dynstr (by decide) (by decide) (by decide) (by decide) (by decide)
  case dynsym =>
    rw [hsymtab']
    exact hkept .dynsym (by decide) (by decide) (by decide) (by decide) (by decide)
  case hash =>
    rw [hsymtab']
    exact hkept .hash (by decide) (by decide) (by decide) (by decide) (by decide)
  case text => rw [hsymtab', halloc _ (by decide), htext]
  case plt => rw [hsymtab', halloc _ (by decide), hplt]
  case data => rw [hsymtab', hreloc', halloc _ (by decide), hdata]
  case tls => rw [hsymtab', halloc _ (by decide), htls]
  case relDyn =>
    rw [hreloc']
    exact hkept .relDyn (by decide) (by decide) (by decide) (by decide) (by decide)
  case relPlt =>
    rw [hreloc']
    exact hkept .relPlt (by decide) (by decide) (by decide) (by decide) (by decide)
  case got =>
    rw [hreloc']
    exact hkept .got (by decide) (by decide) (by decide) (by decide) (by decide)
  case gotPlt =>
    rw [hreloc']
    exact hkept .gotPlt (by decide) (by decide) (by decide) (by decide) (by decide)
  case dynArch => rw [← h]; rfl
  case dynTags => rw [← h]; exact htags
  case cores =>
    have hmanager : u.manager.shdrs.map Section.core =
        (c.1.createSections ++ d.1.createSections ++ t.1.createSection ++ symtab.createSections ++
          reloc.createSections ++ u.dynMeta.createSection).map Section.core ++
          [(.shStrTab, (u.allocator .shstrtab).length, 1, .shstrtab)] := by
      rw [← h]
      dsimp only
      rw [createShstrtab_core, foldl_addSection]
      rfl
    have hlen : ∀ id, id ≠ .dynamic → u.sizeOf id = (u.allocator id).length := by
      intro id hid
      unfold Unplaced.sizeOf
      split
      · exact absurd rfl hid
      · rfl
    have hkeptLen : u.sizeOf .dynstr = symtab.dynstrSize ∧
        u.sizeOf .dynsym = symtab.dynsymSize ∧ u.sizeOf .hash = symtab.hashSize ∧
        u.sizeOf .relDyn = reloc.relDynSize ∧ u.sizeOf .relPlt = reloc.relPltSize ∧
        u.sizeOf .got = reloc.gotSize ∧ u.sizeOf .gotPlt = reloc.gotPltSize := by
      rw [hlen _ (by decide), hlen _ (by decide), hlen _ (by decide), hlen _ (by decide),
        hlen _ (by decide), hlen _ (by decide), hlen _ (by decide)]
      repeat rw [hkept _ (by decide) (by decide) (by decide) (by decide) (by decide)]
      exact ⟨hstr.symm, hsym.symm, hhash.symm, List.length_replicate, List.length_replicate,
        List.length_replicate, List.length_replicate⟩
    obtain ⟨h₁, h₂, h₃, h₄, h₅, h₆, h₇⟩ := hkeptLen
    rw [hmanager, hsection, hsymtab']
    unfold cores
    rw [h₁, h₂, h₃, h₄, h₅, h₆, h₇, hlen .text (by decide), hlen .plt (by decide),
      hlen .data (by decide), hlen .tls (by decide), halloc .text (by decide),
      halloc .plt (by decide), halloc .data (by decide), halloc .tls (by decide), htls,
      ← hsizes.1, ← hsizes.2.1, ← hsizes.2.2, hlen .shstrtab (by decide)]
    unfold RelocMetaData.createSections
    rw [harch]
    cases symtab.getTlsContent.isEmpty <;> rfl

/-! ## The headers when they are placed -/

/-- One step of the cursor. -/
theorem assign_cons {layout layout' : ElfLayout} {last : Option Nat} {sec : Section}
    {secs secs' : List Section} (h : assign layout last (sec :: secs) = some (secs', layout')) :
    ∃ entered offset vaddr after rest,
      layout.enterGroup sec.header.shtype.group last = some entered ∧
      entered.addSection sec.header.size sec.header.addralign = some (offset, vaddr, after) ∧
      assign after sec.header.shtype.group secs = some (rest, layout') ∧
      secs' = sec.placed offset vaddr :: rest := by
  unfold assign at h
  simp only [Option.bind_eq_bind, Option.bind_eq_some_iff, Option.pure_def, Option.some.injEq,
    Prod.mk.injEq] at h
  obtain ⟨entered, henter, ⟨offset, vaddr, after⟩, hadd, ⟨rest, last'⟩, hrest, rfl, rfl⟩ := h
  exact ⟨entered, offset, vaddr, after, rest, henter, hadd, hrest, rfl⟩

theorem assign_core {layout layout' : ElfLayout} {last : Option Nat} {secs secs' : List Section}
    (h : assign layout last secs = some (secs', layout')) :
    secs'.map Section.core = secs.map Section.core := by
  induction secs generalizing layout last secs' with
  | nil =>
      cases h
      rfl
  | cons sec secs ih =>
      obtain ⟨entered, offset, vaddr, after, rest, -, -, hrest, rfl⟩ := assign_cons h
      rw [List.map_cons, List.map_cons, ih hrest]
      rfl

/-- The cursor works on the sorted headers, and the groups are parts of the result. -/
theorem layout_spec {manager manager' : ShdrManager} {layout layout' : ElfLayout}
    (h : manager.layout layout = some (manager', layout')) :
    assign layout none (manager.shdrs.insertionSort fun a b => sortKey a ≤ sortKey b) =
        some (manager'.shdrs, layout') ∧
      manager'.rSecs =
        some (manager'.shdrs.filter fun sec => sec.header.shtype.group = some 0) ∧
      manager'.rxSecs =
        some (manager'.shdrs.filter fun sec => sec.header.shtype.group = some 1) ∧
      manager'.rwSecs =
        some (manager'.shdrs.filter fun sec => sec.header.shtype.group = some 2) := by
  unfold ShdrManager.layout at h
  simp only [Option.bind_eq_bind, Option.bind_eq_some_iff, Option.pure_def, Option.some.injEq,
    Prod.mk.injEq] at h
  obtain ⟨⟨shdrs, l⟩, hassign, rfl, rfl⟩ := h
  exact ⟨hassign, rfl, rfl, rfl⟩

theorem layout_core {manager manager' : ShdrManager} {layout layout' : ElfLayout}
    (h : manager.layout layout = some (manager', layout')) :
    (manager'.shdrs.map Section.core).Perm (manager.shdrs.map Section.core) := by
  rw [assign_core (layout_spec h).1]
  exact (List.perm_insertionSort _ _).map _

/-! ## Patches and lengths -/

/-- Every buffer has the length it had. -/
def SameLength (a a' : SectionAllocator) : Prop := ∀ id, (a' id).length = (a id).length

theorem SameLength.refl (a : SectionAllocator) : SameLength a a := fun _ => rfl

theorem SameLength.trans {a a' a'' : SectionAllocator} (h : SameLength a a')
    (h' : SameLength a' a'') : SameLength a a'' := fun id => (h' id).trans (h id)

theorem SameLength.set {a : SectionAllocator} {id : SectionId} {content : List UInt8}
    (h : content.length = (a id).length) : SameLength a (a.set id content) := by
  intro id'
  by_cases hid : id' = id
  · rw [hid, SectionAllocator.set_self, h]
  · rw [SectionAllocator.set_other _ _ hid]

section Patch

variable {a a' : SectionAllocator} {symtab : SymTabMetadata} {reloc : RelocMetaData}

theorem storeWord_length {is64 : Bool} {id : SectionId} {off value : Nat}
    (h : RelocMetaData.storeWord is64 id off value a = some a') : SameLength a a' := by
  unfold RelocMetaData.storeWord at h
  rw [Option.map_eq_some_iff] at h
  obtain ⟨content, hsplice, rfl⟩ := h
  exact SameLength.set (splice_length hsplice)

theorem patchGot_length {dynVaddr pltVaddr : Nat}
    (h : reloc.patchGot dynVaddr pltVaddr a = some a') : SameLength a a' := by
  unfold RelocMetaData.patchGot at h
  simp only [Option.bind_eq_bind, Option.bind_eq_some_iff] at h
  obtain ⟨a₁, h₁, a₂, h₂, hloop⟩ := h
  have hrest : SameLength a₂ a' :=
    foldlM_invariant SameLength SameLength.refl SameLength.trans
      (fun _ _ _ _ h => storeWord_length h) hloop
  exact (storeWord_length h₁).trans ((storeWord_length h₂).trans hrest)

theorem patchIfunc_length {data data' : List UInt8} {textVaddr targetVaddr : Nat}
    (h : symtab.patchIfunc data textVaddr targetVaddr = some data') :
    data'.length = data.length := by
  unfold SymTabMetadata.patchIfunc at h
  split at h
  · simp only [Option.bind_eq_bind, Option.bind_eq_some_iff] at h
    obtain ⟨value, -, off, -, hpatch⟩ := h
    exact (patchIfuncResolver_patched hpatch).length
  · cases h
    rfl

theorem patchHelpers_length {order : HashOrder} {data data' : List UInt8}
    {textVaddr gotVaddr : Nat} (h : symtab.patchHelpers order data textVaddr gotVaddr = some data') :
    data'.length = data.length := by
  refine foldlM_invariant (fun l l' : List UInt8 => l'.length = l.length) (fun _ => rfl)
    (fun h h' => h'.trans h) ?_ h
  intro entry _ l l' hstep
  simp only [SymTabMetadata.patchOneHelper, Option.bind_eq_bind, Option.bind_eq_some_iff] at hstep
  obtain ⟨target, -, value, -, off, -, hpatch⟩ := hstep
  exact (patchHelper_patched hpatch).length

theorem patchPlt_length {data data' : List UInt8} {pltVaddr gotPltVaddr : Nat}
    (h : symtab.patchPlt data pltVaddr gotPltVaddr = some data') : data'.length = data.length := by
  unfold SymTabMetadata.patchPlt at h
  obtain ⟨data₁, hplt0, hentries⟩ := Option.bind_eq_some_iff.mp h
  have hfirst : data₁.length = data.length := by
    unfold SymTabMetadata.patchHead at hplt0
    split at hplt0
    · simp only [Option.bind_eq_bind, Option.bind_eq_some_iff] at hplt0
      obtain ⟨value, -, off, -, hpatch⟩ := hplt0
      exact (patchPlt0_patched hpatch).length
    · cases hplt0
      rfl
  have hrest : data'.length = data₁.length := by
    refine foldlM_invariant (fun l l' : List UInt8 => l'.length = l.length) (fun _ => rfl)
      (fun h h' => h'.trans h) ?_ hentries
    intro entry _ l l' hstep
    simp only [SymTabMetadata.patchEntry, Option.bind_eq_bind, Option.bind_eq_some_iff] at hstep
    obtain ⟨value, -, off, -, target, -, hpatch⟩ := hstep
    exact (patchPltEntry_patched hpatch).length
  exact hrest.trans hfirst

theorem patchText_length {order : HashOrder} {pltVaddr textVaddr gotPltVaddr resolverVal : Nat}
    (h : CodeMetaData.patchText pltVaddr textVaddr gotPltVaddr resolverVal symtab order a =
      some a') : SameLength a a' := by
  unfold CodeMetaData.patchText at h
  simp only [Option.bind_eq_bind, Option.bind_eq_some_iff, Option.pure_def, Option.some.injEq] at h
  obtain ⟨text₁, hifunc, text₂, hhelpers, plt, hplt, rfl⟩ := h
  have htext : text₂.length = (a .text).length :=
    (patchHelpers_length hhelpers).trans (patchIfunc_length hifunc)
  exact (SameLength.set htext).trans (SameLength.set (patchPlt_length hplt))

/-! ## The symbol table -/

theorem Symbol.write_length (sym : Symbol) (is64 : Bool) :
    (sym.write is64).length = if is64 then 24 else 16 := by
  cases is64 <;> simp [Symbol.write, addrBytes]

theorem writeDynsym_length (symtab : SymTabMetadata) :
    symtab.writeDynsym.length = symtab.dynsym.length * if symtab.arch.is64 then 24 else 16 := by
  unfold SymTabMetadata.writeDynsym
  rw [List.length_flatMap]
  simp only [Symbol.write_length, List.map_const', List.sum_replicate_nat]

theorem placeSymbols_length {place : SymbolDesc → SectionKind → Symbol → Option Symbol}
    {symbols : List SymbolDesc} {types : List SectionKind} {syms placed : List Symbol}
    (h : SymTabMetadata.placeSymbols place symbols types syms = some placed) :
    placed.length = syms.length := by
  induction syms generalizing symbols types placed with
  | nil =>
      rw [SymTabMetadata.placeSymbols] at h
      cases h
      rfl
  | cons sym syms ih =>
      cases symbols with
      | nil => cases h
      | cons s symbols =>
          cases types with
          | nil => cases h
          | cons type types =>
              rw [SymTabMetadata.placeSymbols] at h
              simp only [Option.bind_eq_bind, Option.bind_eq_some_iff, Option.pure_def,
                Option.some.injEq] at h
              obtain ⟨sym', -, rest, hrest, rfl⟩ := h
              rw [List.length_cons, List.length_cons, ih hrest]

/-- The values and section indices are all that changes. -/
theorem updateSymbolValues_spec {symtab symtab' : SymTabMetadata}
    {pltVaddr textVaddr dataVaddr : Nat} {shdrMap : SectionKind.Map}
    (h : symtab.updateSymbolValues pltVaddr textVaddr dataVaddr shdrMap = some symtab') :
    ∃ placed, SymTabMetadata.placeSymbols
        (SymTabMetadata.placeSymbol pltVaddr textVaddr dataVaddr shdrMap) symtab.symbols
        (symtab.dynsymShdrTypes.drop 1) (symtab.dynsym.drop 1) = some placed ∧
      symtab' = { symtab with dynsym := symtab.dynsym.take 1 ++ placed } := by
  unfold SymTabMetadata.updateSymbolValues at h
  simp only [Option.bind_eq_bind, Option.bind_eq_some_iff, Option.pure_def, Option.some.injEq] at h
  obtain ⟨placed, hplaced, rfl⟩ := h
  exact ⟨placed, hplaced, rfl⟩

theorem patchSymtab_length {symtab' : SymTabMetadata} {pltVaddr textVaddr dataVaddr : Nat}
    {shdrMap : SectionKind.Map}
    (h : symtab.patchSymtab pltVaddr textVaddr dataVaddr shdrMap a = some (symtab', a'))
    (hdynsym : a .dynsym = symtab.writeDynsym) : SameLength a a' := by
  unfold SymTabMetadata.patchSymtab at h
  simp only [Option.bind_eq_bind, Option.bind_eq_some_iff, Option.pure_def, Option.some.injEq,
    Prod.mk.injEq] at h
  obtain ⟨updated, hupdate, rfl, rfl⟩ := h
  obtain ⟨placed, hplaced, rfl⟩ := updateSymbolValues_spec hupdate
  apply SameLength.set
  rw [hdynsym, writeDynsym_length, writeDynsym_length]
  congr 1
  have hlen := placeSymbols_length hplaced
  simp only [List.length_append, List.length_take, hlen, List.length_drop]
  omega

/-! ## The relocations -/

theorem Reloc.write_length (r : Reloc) (arch : Arch) :
    (r.write arch.is64 arch.isRela).length = RelocMetaData.relEntrySize arch := by
  cases arch <;> simp [Reloc.write, addrBytes, RelocMetaData.relEntrySize, Arch.is64, Arch.isRela]

/-- The number of entries that go to `.rel.dyn`. -/
def RelocMetaData.pltStart (reloc : RelocMetaData) : Nat :=
  reloc.relativeCount + reloc.gotCount + reloc.copyCount + reloc.irelativeCount

theorem storeWordIf_length {c is64 : Bool} {id : SectionId} {off value : Nat}
    (h : RelocMetaData.storeWordIf c is64 id off value a = some a') : SameLength a a' := by
  unfold RelocMetaData.storeWordIf at h
  split at h
  · exact storeWord_length h
  · cases h
    exact SameLength.refl a

/-- One relocation appends one entry to one of the two tables. -/
theorem patchOne_length {vaddrs : RelocMetaData.Vaddrs} {i : Nat} {r r' : Reloc}
    (h : reloc.patchOne vaddrs symtab i r a = some (r', a')) (id : SectionId) :
    (a' id).length = (a id).length +
      if id = (if i < reloc.pltStart then .relDyn else .relPlt) then
        RelocMetaData.relEntrySize reloc.arch
      else 0 := by
  unfold RelocMetaData.patchOne at h
  simp only [Option.bind_eq_bind, Option.bind_eq_some_iff, Option.pure_def, Option.some.injEq,
    Prod.mk.injEq] at h
  obtain ⟨addend, -, a₁, hslot, a₂, hstore, offset, -, -, rfl⟩ := h
  have hsame := (storeWordIf_length hslot).trans (storeWordIf_length hstore) id
  have htarget : (if i < reloc.pltStart then SectionId.relDyn else .relPlt) =
      (if i < reloc.relativeCount + reloc.gotCount + reloc.copyCount + reloc.irelativeCount then
        (if decide (reloc.relativeCount + reloc.gotCount ≤ i ∧
            i < reloc.relativeCount + reloc.gotCount + reloc.copyCount) = true
          then vaddrs.data else vaddrs.got, SectionId.relDyn)
      else (vaddrs.gotPlt, SectionId.relPlt)).2 := by
    unfold RelocMetaData.pltStart
    split <;> rfl
  rw [← htarget]
  generalize (if i < reloc.pltStart then SectionId.relDyn else .relPlt) = target
  by_cases hid : id = target
  · rw [hid, SectionAllocator.set_self, List.length_append, Reloc.write_length, if_pos rfl,
      ← hid, hsame]
  · rw [SectionAllocator.set_other _ _ hid, if_neg hid, Nat.add_zero, hsame]

theorem patchFrom_cons {vaddrs : RelocMetaData.Vaddrs} {i : Nat} {r : Reloc}
    {rs rs' : List Reloc} (h : reloc.patchFrom vaddrs symtab i (r :: rs) a = some (rs', a')) :
    ∃ r' a₁ rest, reloc.patchOne vaddrs symtab i r a = some (r', a₁) ∧
      reloc.patchFrom vaddrs symtab (i + 1) rs a₁ = some (rest, a') ∧ rs' = r' :: rest := by
  unfold RelocMetaData.patchFrom at h
  simp only [Option.bind_eq_bind, Option.bind_eq_some_iff, Option.pure_def, Option.some.injEq,
    Prod.mk.injEq] at h
  obtain ⟨⟨r', a₁⟩, hone, ⟨rest, a₂⟩, hrest, rfl, rfl⟩ := h
  exact ⟨r', a₁, rest, hone, hrest, rfl⟩

/-- The loop from position `i` on: the positions below `pltStart` append to
`.rel.dyn`, the others to `.rel.plt`. -/
theorem patchFrom_length {vaddrs : RelocMetaData.Vaddrs} {i : Nat} {rs rs' : List Reloc}
    (h : reloc.patchFrom vaddrs symtab i rs a = some (rs', a')) :
    (a' .relDyn).length = (a .relDyn).length +
        (min (i + rs.length) reloc.pltStart - min i reloc.pltStart) *
          RelocMetaData.relEntrySize reloc.arch ∧
      (a' .relPlt).length = (a .relPlt).length +
        (max (i + rs.length) reloc.pltStart - max i reloc.pltStart) *
          RelocMetaData.relEntrySize reloc.arch ∧
      ∀ id, id ≠ .relDyn → id ≠ .relPlt → (a' id).length = (a id).length := by
  induction rs generalizing i a rs' with
  | nil =>
      cases h
      simp
  | cons r rs ih =>
      obtain ⟨r', a₁, rest, hone, hrest, rfl⟩ := patchFrom_cons h
      obtain ⟨hdyn, hplt, hother⟩ := ih hrest
      have hstep := patchOne_length hone
      have hstepDyn := hstep .relDyn
      have hstepPlt := hstep .relPlt
      rw [List.length_cons]
      by_cases hi : i < reloc.pltStart
      · rw [if_pos hi] at hstepDyn hstepPlt
        rw [if_pos rfl] at hstepDyn
        rw [if_neg (by decide)] at hstepPlt
        have hmin : min (i + (rs.length + 1)) reloc.pltStart - min i reloc.pltStart =
            1 + (min (i + 1 + rs.length) reloc.pltStart - min (i + 1) reloc.pltStart) := by omega
        have hmax : max (i + (rs.length + 1)) reloc.pltStart - max i reloc.pltStart =
            max (i + 1 + rs.length) reloc.pltStart - max (i + 1) reloc.pltStart := by omega
        refine ⟨?_, ?_, ?_⟩
        · rw [hdyn, hstepDyn, hmin, Nat.add_mul, Nat.one_mul, Nat.add_assoc]
        · rw [hplt, hstepPlt, hmax, Nat.add_zero]
        · intro id h₁ h₂
          rw [hother id h₁ h₂, hstep id, if_pos hi, if_neg h₁, Nat.add_zero]
      · rw [if_neg hi] at hstepDyn hstepPlt
        rw [if_neg (by decide)] at hstepDyn
        rw [if_pos rfl] at hstepPlt
        have hmin : min (i + (rs.length + 1)) reloc.pltStart - min i reloc.pltStart =
            min (i + 1 + rs.length) reloc.pltStart - min (i + 1) reloc.pltStart := by omega
        have hmax : max (i + (rs.length + 1)) reloc.pltStart - max i reloc.pltStart =
            1 + (max (i + 1 + rs.length) reloc.pltStart - max (i + 1) reloc.pltStart) := by omega
        refine ⟨?_, ?_, ?_⟩
        · rw [hdyn, hstepDyn, hmin, Nat.add_zero]
        · rw [hplt, hstepPlt, hmax, Nat.add_mul, Nat.one_mul, Nat.add_assoc]
        · intro id h₁ h₂
          rw [hother id h₁ h₂, hstep id, if_neg hi, if_neg h₂, Nat.add_zero]

theorem slotRelocs_length {wordSize first : Nat} {symIdx : RelocEntry → Option Nat}
    {addend : RelocEntry → BitVec 64} {rs : List RelocEntry} {relocs : List Reloc}
    (h : RelocMetaData.slotRelocs wordSize first symIdx addend rs = some relocs) :
    relocs.length = rs.length := by
  rw [mapM_length h, List.length_zipIdx]

theorem copyRelocs_length {offset : Nat} {rs : List RelocEntry} {relocs : List Reloc}
    (h : RelocMetaData.copyRelocs symtab offset rs = some relocs) :
    relocs.length = rs.length := by
  induction rs generalizing offset relocs with
  | nil =>
      cases h
      rfl
  | cons r rs ih =>
      unfold RelocMetaData.copyRelocs at h
      simp only [Option.bind_eq_bind, Option.bind_eq_some_iff, Option.pure_def,
        Option.some.injEq] at h
      obtain ⟨symIdx, -, symSize, -, rest, hrest, rfl⟩ := h
      rw [List.length_cons, List.length_cons, ih hrest]

/-- The counts are those of the relocations. -/
theorem relocs_length {arch : Arch} {raw : List RelocEntry}
    (h : RelocMetaData.new arch raw symtab a = some (reloc, a')) :
    reloc.relocs.length = reloc.pltStart + reloc.pltCount := by
  unfold RelocMetaData.new at h
  simp only [Option.bind_eq_bind, Option.bind_eq_some_iff, Option.pure_def, Option.some.injEq,
    Prod.mk.injEq] at h
  obtain ⟨relative, hrelative, got, hgot, copy, hcopy, irelative, hirelative, plt, hplt, rfl, -⟩ := h
  simp only [RelocMetaData.pltStart, List.length_append, slotRelocs_length hrelative,
    slotRelocs_length hgot, copyRelocs_length hcopy, slotRelocs_length hirelative,
    slotRelocs_length hplt]

theorem patchAll_length {manager : ShdrManager} {reloc' : RelocMetaData}
    (h : reloc.patchAll manager symtab a = some (reloc', a'))
    (hcount : reloc.relocs.length = reloc.pltStart + reloc.pltCount)
    (hdyn : (a .relDyn).length = reloc.relDynSize) (hplt : (a .relPlt).length = reloc.relPltSize) :
    SameLength a a' := by
  unfold RelocMetaData.patchAll at h
  simp only [Option.bind_eq_bind, Option.bind_eq_some_iff] at h
  obtain ⟨a₁, hgot, h⟩ := h
  unfold RelocMetaData.patchReloc at h
  simp only [Option.bind_eq_bind, Option.bind_eq_some_iff, Option.pure_def, Option.some.injEq,
    Prod.mk.injEq] at h
  obtain ⟨⟨relocs, a₂⟩, hloop, -, rfl⟩ := h
  obtain ⟨hloopDyn, hloopPlt, hother⟩ := patchFrom_length hloop
  have hsame := patchGot_length hgot
  have hmin : min (0 + reloc.relocs.length) reloc.pltStart - min 0 reloc.pltStart =
      reloc.pltStart := by omega
  have hmax : max (0 + reloc.relocs.length) reloc.pltStart - max 0 reloc.pltStart =
      reloc.pltCount := by omega
  rw [hmin] at hloopDyn
  rw [hmax] at hloopPlt
  intro id
  by_cases h₁ : id = .relDyn
  · rw [h₁, hloopDyn, hdyn, SectionAllocator.set_other _ _ (by decide),
      SectionAllocator.set_self]
    exact Nat.zero_add _
  · by_cases h₂ : id = .relPlt
    · rw [h₂, hloopPlt, hplt, SectionAllocator.set_self]
      exact Nat.zero_add _
    · rw [hother id h₁ h₂, SectionAllocator.set_other _ _ h₂, SectionAllocator.set_other _ _ h₁]
      exact hsame id

/-! ## The dynamic section -/

theorem DynamicEntry.write_length (is64 : Bool) (e : DynamicEntry) :
    (DynamicEntry.write is64 e).length = if is64 then 16 else 8 := by
  cases is64 <;> simp [DynamicEntry.write, addrBytes]

theorem updateEntry_tags {tag : BitVec 64} {value : Nat} {entries : List DynamicEntry}
    (h : tag ∈ entries.map DynamicEntry.tag) :
    (DynamicMetadata.updateEntry tag value entries).map DynamicEntry.tag =
      entries.map DynamicEntry.tag := by
  obtain ⟨e, he, rfl⟩ := List.mem_map.mp h
  unfold DynamicMetadata.updateEntry
  cases hpos : entries.findIdx? fun e' => e'.tag = e.tag with
  | none =>
      have hnone := List.findIdx?_eq_none_iff.mp hpos e he
      simp at hnone
  | some pos =>
      dsimp only
      obtain ⟨hlt, htag, -⟩ := List.findIdx?_eq_some_iff_getElem.mp hpos
      have hsame : entries[pos].tag = e.tag := of_decide_eq_true htag
      rw [List.map_set, ← hsame, ← List.getElem_map DynamicEntry.tag (h := by simpa using hlt),
        List.set_getElem_self]

theorem foldl_updateEntry_tags {updates : List (BitVec 64 × Nat)} {entries : List DynamicEntry}
    (h : ∀ u ∈ updates, u.1 ∈ entries.map DynamicEntry.tag) :
    (updates.foldl (fun entries u => DynamicMetadata.updateEntry u.1 u.2 entries) entries).map
      DynamicEntry.tag = entries.map DynamicEntry.tag := by
  induction updates generalizing entries with
  | nil => rfl
  | cons u updates ih =>
      have hfirst : (DynamicMetadata.updateEntry u.1 u.2 entries).map DynamicEntry.tag =
          entries.map DynamicEntry.tag := updateEntry_tags (h u List.mem_cons_self)
      rw [List.foldl_cons, ih, hfirst]
      intro v hv
      rw [hfirst]
      exact h v (List.mem_cons_of_mem u hv)

theorem updates_tags (arch : Arch) (manager : ShdrManager) (count gotPltVaddr : Nat) :
    ∀ u ∈ DynamicMetadata.updates arch manager count gotPltVaddr,
      u.1 ∈ dynTags arch.isRela := by
  have htags : ∀ isRela : Bool, [dtStrtab, dtSymtab, dtHash, dtPltgot,
      if isRela then dtRela else dtRel, if isRela then dtRelasz else dtRelsz, dtJmprel, dtPltrelsz,
      if isRela then dtRelacount else dtRelcount] ⊆ dynTags isRela := by decide
  intro u hu
  exact htags arch.isRela (List.mem_map_of_mem (f := Prod.fst) hu)

theorem patchDynamic_length {manager : ShdrManager} {dynMeta : DynamicMetadata} {gotPltVaddr : Nat}
    (h : dynMeta.patchDynamic manager reloc a gotPltVaddr = some a')
    (hid : ∀ id, manager.getDataId .dynamic = some id → id = .dynamic)
    (htags : dynMeta.dynEntries.map DynamicEntry.tag = dynTags dynMeta.arch.isRela) :
    (a' .dynamic).length = dynMeta.size ∧ ∀ id, id ≠ .dynamic → a' id = a id := by
  unfold DynamicMetadata.patchDynamic at h
  simp only [Option.bind_eq_bind, Option.bind_eq_some_iff, Option.pure_def, Option.some.injEq] at h
  obtain ⟨id, hdata, rfl⟩ := h
  cases hid id hdata
  refine ⟨?_, fun id hne => SectionAllocator.set_other _ _ hne⟩
  rw [SectionAllocator.set_self]
  have hpresent : ∀ u ∈ DynamicMetadata.updates dynMeta.arch manager reloc.relativeCount gotPltVaddr,
      u.1 ∈ dynMeta.dynEntries.map DynamicEntry.tag := by
    rw [htags]
    exact updates_tags _ _ _ _
  have hlen := congrArg List.length (foldl_updateEntry_tags hpresent)
  rw [List.length_map, List.length_map] at hlen
  unfold DynamicMetadata.write DynamicMetadata.size
  rw [List.length_flatMap, ← hlen]
  simp only [DynamicEntry.write_length, List.map_const', List.sum_replicate_nat]

end Patch

/-! ## All buffers -/

theorem cores_size (len : SectionId → Nat) (isRela is64 tls : Bool) :
    ∀ c ∈ cores len isRela is64 tls,
      c.2.1 = len c.2.2.2 ∧ (c.1 = .dynamic → c.2.2.2 = .dynamic) := by
  cases isRela <;> cases is64 <;> cases tls <;> simp [cores]

/-- The steps of `write` from the layout to the last patch. -/
structure Steps (writer : DylibWriter) (order : HashOrder) (u : Unplaced) (st : WriteState)
    (layout : ElfLayout) (a₁ a₂ a₃ : SectionAllocator) : Prop where
  header : (ElfLayout.new writer.config).addHeader (ehdrSize writer.arch.is64)
    (phdrSize writer.arch.is64 * u.manager.getPhnum) = some layout
  layout : u.manager.layout layout = some (st.manager, st.layout)
  symtab : u.symtab.patchSymtab (st.manager.getVaddr .plt) (st.manager.getVaddr .text)
    (st.manager.getVaddr .data) st.manager.getShdrMap u.allocator = some (st.symtab, a₁)
  text : CodeMetaData.patchText (st.manager.getVaddr .plt) (st.manager.getVaddr .text)
    (st.manager.getVaddr .gotPlt) st.resolverVal st.symtab order a₁ = some a₂
  reloc : u.reloc.patchAll st.manager st.symtab a₂ = some (st.reloc, a₃)
  dynamic : u.dynMeta.patchDynamic st.manager st.reloc a₃ (st.manager.getVaddr .gotPlt) =
    some st.allocator

theorem prepare_created {writer : DylibWriter} {order : HashOrder} {rawRelocs : List RelocEntry}
    {symbols : List SymbolDesc} {st : WriteState}
    (h : writer.prepare order rawRelocs symbols = some st) :
    ∃ u layout a₁ a₂ a₃, writer.createSections rawRelocs symbols = some u ∧
      Steps writer order u st layout a₁ a₂ a₃ := by
  unfold DylibWriter.prepare at h
  simp only [Option.bind_eq_bind, Option.bind_eq_some_iff] at h
  obtain ⟨u, hcreate, hplace⟩ := h
  unfold DylibWriter.place at hplace
  simp only [Option.bind_eq_bind, Option.bind_eq_some_iff, Option.pure_def,
    Option.some.injEq] at hplace
  obtain ⟨layout, hheader, ⟨manager, layout'⟩, hlayout, ⟨symtab, a₁⟩, hsymtab, a₂, htext,
    ⟨reloc, a₃⟩, hreloc, a₄, hdynamic, rfl⟩ := hplace
  exact ⟨u, layout, a₁, a₂, a₃, hcreate, hheader, hlayout, hsymtab, htext, hreloc, hdynamic⟩

theorem prepare_steps {writer : DylibWriter} {order : HashOrder} {rawRelocs : List RelocEntry}
    {symbols : List SymbolDesc} {st : WriteState}
    (h : writer.prepare order rawRelocs symbols = some st) :
    ∃ u layout a₁ a₂ a₃, Created writer rawRelocs symbols u ∧
      Steps writer order u st layout a₁ a₂ a₃ := by
  obtain ⟨u, layout, a₁, a₂, a₃, hcreate, hsteps⟩ := prepare_created h
  exact ⟨u, layout, a₁, a₂, a₃, created writer hcreate, hsteps⟩

section Sized

variable {writer : DylibWriter} {order : HashOrder} {rawRelocs : List RelocEntry}
  {symbols : List SymbolDesc} {u : Unplaced} {st : WriteState} {layout : ElfLayout}
  {a₁ a₂ a₃ : SectionAllocator}

theorem placed_cores (hc : Created writer rawRelocs symbols u)
    (hs : Steps writer order u st layout a₁ a₂ a₃) :
    (st.manager.shdrs.map Section.core).Perm (cores u.sizeOf writer.arch.isRela writer.arch.is64
      (!u.symtab.getTlsContent.isEmpty)) := by
  rw [← hc.cores]
  exact layout_core hs.layout

theorem core_mem (hc : Created writer rawRelocs symbols u)
    (hs : Steps writer order u st layout a₁ a₂ a₃) {sec : Section}
    (hsec : sec ∈ st.manager.shdrs) :
    sec.core ∈ cores u.sizeOf writer.arch.isRela writer.arch.is64
      (!u.symtab.getTlsContent.isEmpty) :=
  (placed_cores hc hs).mem_iff.mp (List.mem_map_of_mem hsec)

theorem dynamic_id (hc : Created writer rawRelocs symbols u)
    (hs : Steps writer order u st layout a₁ a₂ a₃) {id : SectionId}
    (h : st.manager.getDataId .dynamic = some id) : id = .dynamic := by
  unfold ShdrManager.getDataId at h
  obtain ⟨sec, hfind, rfl⟩ := Option.map_eq_some_iff.mp h
  have hkind := List.find?_some hfind
  exact (cores_size _ _ _ _ _ (core_mem hc hs (List.mem_of_find?_eq_some hfind))).2
    (of_decide_eq_true hkind)

/-- No patch changes the size of a section. -/
theorem buffer_length (hc : Created writer rawRelocs symbols u)
    (hs : Steps writer order u st layout a₁ a₂ a₃) (id : SectionId) :
    (st.allocator id).length = u.sizeOf id := by
  have hsame₁ := patchSymtab_length hs.symtab hc.dynsym
  have hsame₂ := patchText_length hs.text
  have hsame₁₂ := hsame₁.trans hsame₂
  obtain ⟨b, b', hnew⟩ := hc.relocs
  have hsame₃ := patchAll_length hs.reloc (relocs_length hnew)
    (by rw [hsame₁₂ .relDyn, hc.relDyn, List.length_replicate])
    (by rw [hsame₁₂ .relPlt, hc.relPlt, List.length_replicate])
  obtain ⟨hdyn, hother⟩ := patchDynamic_length hs.dynamic (fun id => dynamic_id hc hs)
    (by rw [hc.dynArch, hc.dynTags])
  by_cases hid : id = .dynamic
  · rw [hid, hdyn]
    rfl
  · rw [hother id hid, hsame₃ id, hsame₁₂ id]
    unfold Unplaced.sizeOf
    split
    · exact absurd rfl hid
    · rfl

/-- Every section's data has the length of its header's size. -/
theorem section_sized (hc : Created writer rawRelocs symbols u)
    (hs : Steps writer order u st layout a₁ a₂ a₃) {sec : Section}
    (hsec : sec ∈ st.manager.shdrs) : (st.allocator sec.data).length = sec.header.size := by
  rw [buffer_length hc hs]
  exact (cores_size _ _ _ _ _ (core_mem hc hs hsec)).1.symm

end Sized

end ElfLoader.GenElf
