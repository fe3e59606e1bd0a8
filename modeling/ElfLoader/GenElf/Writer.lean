import ElfLoader.GenElf.Reloc

/-! # The writer (`dylib/mod.rs`, `text.rs`, `data.rs`, `tls.rs`, `dynamic.rs`)

Sizes are fixed first, then the sections are placed, then everything that holds an
address is patched, and at last the file is put together.
-/

namespace ElfLoader.GenElf

open ByteMemory Splice

/-! ## Code, data and thread-local storage -/

structure CodeMetaData where
  textSize : Nat
  pltSize : Nat

namespace CodeMetaData

def new (symtab : SymTabMetadata) (allocator : SectionAllocator) :
    CodeMetaData × SectionAllocator :=
  ({ textSize := symtab.getTextContent.length, pltSize := symtab.getPltContent.length },
    (allocator.set .text symtab.getTextContent).set .plt symtab.getPltContent)

def createSections (text : CodeMetaData) : List Section :=
  [.unplaced .text text.textSize 16 .text, .unplaced .plt text.pltSize 16 .plt]

def patchText (pltVaddr textVaddr gotPltVaddr resolverVal : Nat) (symtab : SymTabMetadata)
    (order : HashOrder) (allocator : SectionAllocator) : Option SectionAllocator := do
  let textData ← symtab.patchIfunc (allocator .text) textVaddr resolverVal
  let textData ← symtab.patchHelpers order textData textVaddr gotPltVaddr
  let pltData ← symtab.patchPlt (allocator .plt) pltVaddr gotPltVaddr
  return (allocator.set .text textData).set .plt pltData

end CodeMetaData

structure DataMetaData where
  dataSize : Nat

namespace DataMetaData

/-- Behind the contents there is room for what `COPY` relocations copy. -/
def new (reloc : RelocMetaData) (symtab : SymTabMetadata) (allocator : SectionAllocator) :
    DataMetaData × SectionAllocator :=
  let content := symtab.getDataContent
  let content :=
    if reloc.totalCopySize > 0 then resize content (content.length + reloc.totalCopySize) 0
    else content
  ({ dataSize := content.length }, allocator.set .data content)

def createSections (data : DataMetaData) : List Section :=
  [.unplaced .data data.dataSize 8 .data]

end DataMetaData

structure TlsMetaData where
  allocated : Bool
  size : Nat

namespace TlsMetaData

def new (symtab : SymTabMetadata) (allocator : SectionAllocator) :
    TlsMetaData × SectionAllocator :=
  let content := symtab.getTlsContent
  if content.isEmpty then ({ allocated := false, size := 0 }, allocator)
  else ({ allocated := true, size := content.length }, allocator.set .tls content)

def createSection (tls : TlsMetaData) : List Section :=
  if tls.allocated then [.unplaced .tls tls.size 8 .tls] else []

end TlsMetaData

/-! ## The dynamic section -/

def dtNull : BitVec 64 := 0
def dtPltrelsz : BitVec 64 := 2
def dtPltgot : BitVec 64 := 3
def dtHash : BitVec 64 := 4
def dtStrtab : BitVec 64 := 5
def dtSymtab : BitVec 64 := 6
def dtRela : BitVec 64 := 7
def dtRelasz : BitVec 64 := 8
def dtRelaent : BitVec 64 := 9
def dtStrsz : BitVec 64 := 10
def dtSyment : BitVec 64 := 11
def dtRel : BitVec 64 := 17
def dtRelsz : BitVec 64 := 18
def dtRelent : BitVec 64 := 19
def dtPltrel : BitVec 64 := 20
def dtJmprel : BitVec 64 := 23
def dtRelacount : BitVec 64 := 0x6ffffff9
def dtRelcount : BitVec 64 := 0x6ffffffa

structure DynamicEntry where
  tag : BitVec 64
  value : Nat
deriving DecidableEq, Repr

def DynamicEntry.write (is64 : Bool) (e : DynamicEntry) : List UInt8 :=
  addrBytes is64 e.tag.toNat ++ addrBytes is64 e.value

structure DynamicMetadata where
  arch : Arch
  dynEntries : List DynamicEntry

namespace DynamicMetadata

/-- The entries of `init_from_sections` for one section. -/
def sectionEntries (arch : Arch) (sec : Section) : List DynamicEntry :=
  let vaddr := sec.header.addr
  let size := sec.header.size
  let is64 := arch.is64
  match sec.header.shtype with
  | .dynStr => [⟨dtStrtab, vaddr⟩, ⟨dtStrsz, size⟩]
  | .dynSym => [⟨dtSymtab, vaddr⟩, ⟨dtSyment, if is64 then 24 else 16⟩]
  | .hash => [⟨dtHash, vaddr⟩]
  | .got => [⟨dtPltgot, vaddr⟩]
  | .relaDyn =>
      [⟨dtRela, vaddr⟩, ⟨dtRelasz, size⟩, ⟨dtRelaent, if is64 then 24 else 12⟩, ⟨dtRelacount, 0⟩]
  | .relDyn =>
      [⟨dtRel, vaddr⟩, ⟨dtRelsz, size⟩, ⟨dtRelent, if is64 then 16 else 8⟩, ⟨dtRelcount, 0⟩]
  | .relaPlt | .relPlt =>
      [⟨dtJmprel, vaddr⟩, ⟨dtPltrelsz, size⟩,
        ⟨dtPltrel, if arch.isRela then dtRela.toNat else dtRel.toNat⟩]
  | _ => []

def new (arch : Arch) (sections : List Section) : DynamicMetadata where
  arch
  dynEntries := sections.flatMap (sectionEntries arch) ++ [⟨dtNull, 0⟩]

def size (dynMeta : DynamicMetadata) : Nat :=
  dynMeta.dynEntries.length * if dynMeta.arch.is64 then 16 else 8

def createSection (dynMeta : DynamicMetadata) : List Section :=
  [.unplaced .dynamic dynMeta.size 8 .dynamic]

/-- Set the first entry with the tag, or insert one before the end mark. -/
def updateEntry (tag : BitVec 64) (value : Nat) (entries : List DynamicEntry) :
    List DynamicEntry :=
  match entries.findIdx? fun e => e.tag = tag with
  | some pos => entries.set pos ⟨tag, value⟩
  | none =>
      match entries.findIdx? fun e => e.tag = dtNull with
      | some pos => entries.insertIdx pos ⟨tag, value⟩
      | none => entries ++ [⟨tag, value⟩]

/-- The updates of `patch_dynamic`, in order. -/
def updates (arch : Arch) (manager : ShdrManager) (relativeCount gotPltVaddr : Nat) :
    List (BitVec 64 × Nat) :=
  let relDynKind := if arch.isRela then SectionKind.relaDyn else .relDyn
  let relPltKind := if arch.isRela then SectionKind.relaPlt else .relPlt
  [(dtStrtab, manager.getVaddr .dynStr), (dtSymtab, manager.getVaddr .dynSym),
    (dtHash, manager.getVaddr .hash), (dtPltgot, gotPltVaddr),
    (if arch.isRela then dtRela else dtRel, manager.getVaddr relDynKind),
    (if arch.isRela then dtRelasz else dtRelsz, manager.getSize relDynKind),
    (dtJmprel, manager.getVaddr relPltKind), (dtPltrelsz, manager.getSize relPltKind),
    (if arch.isRela then dtRelacount else dtRelcount, relativeCount)]

def write (dynMeta : DynamicMetadata) : List UInt8 :=
  dynMeta.dynEntries.flatMap (DynamicEntry.write dynMeta.arch.is64)

def patchDynamic (dynMeta : DynamicMetadata) (manager : ShdrManager) (reloc : RelocMetaData)
    (allocator : SectionAllocator) (gotPltVaddr : Nat) : Option SectionAllocator := do
  let updates := updates dynMeta.arch manager reloc.relativeCount gotPltVaddr
  let dynEntries := updates.foldl (fun entries u => updateEntry u.1 u.2 entries) dynMeta.dynEntries
  let id ← manager.getDataId .dynamic
  return allocator.set id (write { dynMeta with dynEntries })

end DynamicMetadata

/-! ## The file -/

def ehdrSize (is64 : Bool) : Nat := if is64 then 64 else 52
def phdrSize (is64 : Bool) : Nat := if is64 then 56 else 32
def shdrSize (is64 : Bool) : Nat := if is64 then 64 else 40

structure DylibWriter where
  arch : Arch
  config : ElfWriterConfig

/-- What `write` has computed when the file is put together. -/
structure WriteState where
  manager : ShdrManager
  allocator : SectionAllocator
  symtab : SymTabMetadata
  reloc : RelocMetaData
  layout : ElfLayout
  resolverVal : Nat

structure RelocationInfo where
  vaddr : Nat
  rType : BitVec 32
  symIdx : Nat
  addend : BitVec 64
  symSize : Nat
deriving DecidableEq, Repr

def RelocMetaData.getRelocationInfos (reloc : RelocMetaData) : List RelocationInfo :=
  reloc.relocs.map fun r =>
    { vaddr := r.offset, rType := r.rType, symIdx := r.symIdx, addend := r.addend,
      symSize := r.symSize }

structure ElfWriteOutput where
  data : List UInt8
  baseAddr : Nat
  dataVaddr : Nat
  textVaddr : Nat
  relocations : List RelocationInfo
  ifuncResolverVal : Nat

/-- The sections before they are placed, with their buffers. -/
structure Unplaced where
  manager : ShdrManager
  allocator : SectionAllocator
  symtab : SymTabMetadata
  reloc : RelocMetaData
  dynMeta : DynamicMetadata

namespace DylibWriter

variable (writer : DylibWriter)

def getIdent : List UInt8 :=
  [0x7f, 0x45, 0x4c, 0x46, if writer.arch.is64 then 2 else 1, 1, 1, 0] ++ List.replicate 8 0

def getFlags : BitVec 32 :=
  match writer.arch with
  | .riscv64 | .riscv32 => 0x0001 ||| 0x0004
  | .arm => 0x05000000 ||| 0x00000400
  | _ => 0

def getMachine : BitVec 16 :=
  match writer.arch with
  | .x86_64 => 62
  | .x86 => 3
  | .aarch64 => 183
  | .riscv64 | .riscv32 => 243
  | .arm => 40
  | .loongarch64 => 258

/-- Steps 1 to 4: the sections with their sizes, in the order they are created. -/
def createSections (rawRelocs : List RelocEntry) (symbols : List SymbolDesc) :
    Option Unplaced := do
  let (symtab, allocator) ←
    SymTabMetadata.new writer.arch symbols rawRelocs SectionAllocator.new
  let (reloc, allocator) ← RelocMetaData.new writer.arch rawRelocs symtab allocator
  let (data, allocator) := DataMetaData.new reloc symtab allocator
  let (text, allocator) := CodeMetaData.new symtab allocator
  let (tls, allocator) := TlsMetaData.new symtab allocator
  let sections := text.createSections ++ data.createSections ++ tls.createSection ++
    symtab.createSections ++ reloc.createSections
  let dynMeta := DynamicMetadata.new writer.arch sections
  let sections := sections ++ dynMeta.createSection
  let manager := sections.foldl ShdrManager.addSection ShdrManager.new
  let (manager, allocator) := manager.createShstrtabSection allocator
  return { manager, allocator, symtab, reloc, dynMeta }

/-- Steps 5 and 6: the places of the sections, and everything that holds an
address. -/
def place (order : HashOrder) (unplaced : Unplaced) : Option WriteState := do
  let is64 := writer.arch.is64
  let phSize := phdrSize is64 * unplaced.manager.getPhnum
  let layout ← (ElfLayout.new writer.config).addHeader (ehdrSize is64) phSize
  let (manager, layout) ← unplaced.manager.layout layout
  let pltVaddr := manager.getVaddr .plt
  let textVaddr := manager.getVaddr .text
  let dataVaddr := manager.getVaddr .data
  let gotPltVaddr := manager.getVaddr .gotPlt
  let (symtab, allocator) ← unplaced.symtab.patchSymtab pltVaddr textVaddr dataVaddr
    manager.getShdrMap unplaced.allocator
  let resolverVal := writer.config.ifuncResolverVal.getD pltVaddr
  let allocator ← CodeMetaData.patchText pltVaddr textVaddr gotPltVaddr resolverVal symtab order
    allocator
  let (reloc, allocator) ← unplaced.reloc.patchAll manager symtab allocator
  let allocator ← unplaced.dynMeta.patchDynamic manager reloc allocator gotPltVaddr
  return { manager, allocator, symtab, reloc, layout, resolverVal }

def prepare (order : HashOrder) (rawRelocs : List RelocEntry) (symbols : List SymbolDesc) :
    Option WriteState := do
  let unplaced ← writer.createSections rawRelocs symbols
  writer.place order unplaced

/-- The file header. -/
def ehdr (st : WriteState) : Option (List UInt8) := do
  let is64 := writer.arch.is64
  let shstrndx ← st.manager.getShdrMap .shStrTab
  let half (value : Nat) := leBytes (BitVec.ofNat 16 value)
  return writer.getIdent ++ half 3 ++ leBytes writer.getMachine ++ leBytes (1#32) ++
    addrBytes is64 0 ++ addrBytes is64 (ehdrSize is64) ++ addrBytes is64 st.layout.fileOff ++
    leBytes writer.getFlags ++ half (ehdrSize is64) ++ half (phdrSize is64) ++
    half st.manager.getPhnum ++ half (shdrSize is64) ++ half (st.manager.shdrs.length + 1) ++
    half shstrndx

/-- Step 7: the file header, the program headers, the sections and the section
headers. -/
def render (st : WriteState) : Option (List UInt8) := do
  let is64 := writer.arch.is64
  let ehdr ← writer.ehdr st
  let phdrs ← st.manager.writePhdrs is64 writer.config.pageSize
  let out := st.manager.shdrs.foldl
    (fun out sec => writeAt 0 out sec.header.offset (st.allocator sec.data)) (ehdr ++ phdrs)
  let shdrs ← st.manager.writeShdrs is64
  return writeAt 0 out st.layout.fileOff shdrs

def write (order : HashOrder) (rawRelocs : List RelocEntry) (symbols : List SymbolDesc) :
    Option ElfWriteOutput := do
  let st ← writer.prepare order rawRelocs symbols
  let data ← writer.render st
  return { data
           baseAddr := writer.config.baseAddr
           dataVaddr := st.manager.getVaddr .data
           textVaddr := st.manager.getVaddr .text
           relocations := st.reloc.getRelocationInfos
           ifuncResolverVal := st.resolverVal }

end DylibWriter

end ElfLoader.GenElf
