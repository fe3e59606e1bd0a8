import ElfLoader.GenElf.Common
import ElfLoader.Library.ByteMemory
import ElfLoader.Library.Splice
import Mathlib.Data.List.Sort
import Mathlib.Logic.Function.Basic

/-! # Sections and their layout (`dylib/shdr.rs`, `dylib/layout.rs`)

The section headers are sorted into groups with equal permissions and placed by a
cursor over the file. Every section has one buffer of the allocator; the buffers
are named after the calls that allocate them.
-/

namespace ElfLoader.GenElf

open ByteMemory

/-- A field that is as wide as an address of the target. -/
def addrBytes (is64 : Bool) (value : Nat) : List UInt8 :=
  if is64 then leBytes (BitVec.ofNat 64 value) else leBytes (BitVec.ofNat 32 value)

def shfWrite : BitVec 64 := 0x1
def shfAlloc : BitVec 64 := 0x2
def shfExecinstr : BitVec 64 := 0x4
def shfTls : BitVec 64 := 0x400

namespace SectionKind

def asStr : SectionKind → Name
  | .null => ascii ".null"
  | .dynStr => ascii ".dynstr"
  | .dynSym => ascii ".dynsym"
  | .relaDyn => ascii ".rela.dyn"
  | .relaPlt => ascii ".rela.plt"
  | .relDyn => ascii ".rel.dyn"
  | .relPlt => ascii ".rel.plt"
  | .dynamic => ascii ".dynamic"
  | .hash => ascii ".hash"
  | .shStrTab => ascii ".shstrtab"
  | .plt => ascii ".plt"
  | .text => ascii ".text"
  | .data => ascii ".data"
  | .got => ascii ".got"
  | .gotPlt => ascii ".got.plt"
  | .tls => ascii ".tdata"

def shtype : SectionKind → BitVec 32
  | .null => 0
  | .dynStr | .shStrTab => 3
  | .dynSym => 11
  | .relaDyn | .relaPlt => 4
  | .relDyn | .relPlt => 9
  | .dynamic => 6
  | .hash => 5
  | .plt | .text | .data => 1
  | .got | .gotPlt => 1
  | .tls => 1

def flags : SectionKind → BitVec 64
  | .plt | .text => shfAlloc ||| shfExecinstr
  | .data | .got | .gotPlt => shfAlloc ||| shfWrite
  | .tls => shfAlloc ||| shfWrite ||| shfTls
  | .dynamic => shfAlloc ||| shfWrite
  | .dynStr | .dynSym | .relaDyn | .relaPlt | .relDyn | .relPlt | .hash => shfAlloc
  | .null | .shStrTab => 0

def entsize (is64 : Bool) : SectionKind → Nat
  | .dynSym => if is64 then 24 else 16
  | .relaDyn | .relaPlt => if is64 then 24 else 12
  | .relDyn | .relPlt => if is64 then 16 else 8
  | .dynamic => if is64 then 16 else 8
  | .hash => 4
  | .got => if is64 then 8 else 4
  | _ => 0

/-- The section indices by kind. -/
abbrev Map := SectionKind → Option Nat

def info (map : Map) : SectionKind → Nat
  | .dynSym => 1
  | .relaPlt | .relPlt => (map .plt).getD 0
  | _ => 0

def link (map : Map) : SectionKind → Option Nat
  | .dynSym => map .dynStr
  | .relaDyn | .relDyn => map .dynSym
  | .relaPlt | .relPlt => map .dynSym
  | .dynamic => map .dynStr
  | .hash => map .dynSym
  | _ => some 0

def isAlloc (kind : SectionKind) : Bool := kind.flags &&& shfAlloc ≠ 0

def isWrite (kind : SectionKind) : Bool := kind.flags &&& shfWrite ≠ 0

def isExec (kind : SectionKind) : Bool := kind.flags &&& shfExecinstr ≠ 0

/-- The segment an allocated section belongs to: read-only, code or data. -/
def group (kind : SectionKind) : Option Nat :=
  if kind.isAlloc then
    if !kind.isWrite && !kind.isExec then some 0
    else if kind.isExec then some 1
    else some 2
  else none

end SectionKind

structure SectionHeader where
  nameOff : Nat
  shtype : SectionKind
  addr : Nat
  offset : Nat
  size : Nat
  addralign : Nat
deriving DecidableEq, Repr

inductive SectionId where
  | dynsym
  | dynstr
  | hash
  | relDyn
  | relPlt
  | got
  | gotPlt
  | data
  | text
  | plt
  | tls
  | dynamic
  | shstrtab
deriving DecidableEq, Repr

/-- The buffers. A buffer that is not allocated yet is empty. -/
abbrev SectionAllocator := SectionId → List UInt8

def SectionAllocator.new : SectionAllocator := fun _ => []

/-- Give a buffer new content. -/
def SectionAllocator.set (allocator : SectionAllocator) (id : SectionId) (content : List UInt8) :
    SectionAllocator :=
  Function.update allocator id content

structure Section where
  header : SectionHeader
  data : SectionId
deriving DecidableEq, Repr

/-- A section that has no place yet. -/
def Section.unplaced (shtype : SectionKind) (size addralign : Nat) (id : SectionId) : Section :=
  { header := { nameOff := 0, shtype, addr := 0, offset := 0, size, addralign }, data := id }

/-! ## The cursor -/

structure ElfWriterConfig where
  baseAddr : Nat
  pageSize : Nat
  ifuncResolverVal : Option Nat

def ElfWriterConfig.default : ElfWriterConfig where
  baseAddr := 0
  pageSize := 0x1000
  ifuncResolverVal := none

def alignUp (val align : Nat) : Option Nat := do
  let sum ← addU64 val align
  if align = 0 then none else return (sum - 1) / align * align

structure ElfLayout where
  baseAddr : Nat
  pageSize : Nat
  fileOff : Nat
deriving DecidableEq, Repr

namespace ElfLayout

def new (config : ElfWriterConfig) : ElfLayout where
  baseAddr := config.baseAddr
  pageSize := config.pageSize
  fileOff := 0

def alignToPage (layout : ElfLayout) : Option ElfLayout := do
  let fileOff ← alignUp layout.fileOff layout.pageSize
  return { layout with fileOff }

def addHeader (layout : ElfLayout) (ehdrSize phSize : Nat) : Option ElfLayout :=
  alignToPage { layout with fileOff := ehdrSize + phSize }

/-- The offset and the address of the next section. -/
def addSection (layout : ElfLayout) (size align : Nat) : Option (Nat × Nat × ElfLayout) := do
  let offset ← alignUp layout.fileOff align
  let vaddr ← addU64 layout.baseAddr offset
  let fileOff ← addU64 offset size
  return (offset, vaddr, { layout with fileOff })

end ElfLayout

/-! ## The section headers -/

structure ShdrManager where
  shdrs : List Section
  rxSecs : Option (List Section)
  rSecs : Option (List Section)
  rwSecs : Option (List Section)

/-- The key of the sort: the group, and behind all groups what is not loaded. -/
def sortKey (sec : Section) : Nat := sec.header.shtype.group.getD 3

/-- A new group starts on a page. -/
def ElfLayout.enterGroup (layout : ElfLayout) (group lastGroup : Option Nat) : Option ElfLayout :=
  if group ≠ lastGroup ∧ group.isSome then layout.alignToPage else some layout

/-- The section at its place. Only what is loaded has an address. -/
def Section.placed (sec : Section) (offset vaddr : Nat) : Section :=
  let addr := if sec.header.shtype.isAlloc then vaddr else 0
  { sec with header := { sec.header with offset, addr } }

/-- Assign offsets and addresses. -/
def assign (layout : ElfLayout) (lastGroup : Option Nat) :
    List Section → Option (List Section × ElfLayout)
  | [] => some ([], layout)
  | sec :: secs => do
      let group := sec.header.shtype.group
      let layout ← layout.enterGroup group lastGroup
      let (offset, vaddr, layout) ← layout.addSection sec.header.size sec.header.addralign
      let (secs, layout) ← assign layout group secs
      return (sec.placed offset vaddr :: secs, layout)

structure StringTable where
  data : List UInt8

namespace StringTable

def new : StringTable := ⟨[0]⟩

/-- The table with `s` behind it; its index is `curIdx` of the table before. -/
def add (table : StringTable) (s : Name) : StringTable := ⟨table.data ++ s ++ [0]⟩

def curIdx (table : StringTable) : BitVec 32 := BitVec.ofNat 32 table.data.length

end StringTable

namespace ShdrManager

def new : ShdrManager := ⟨[], none, none, none⟩

def addSection (manager : ShdrManager) (sec : Section) : ShdrManager :=
  { manager with shdrs := manager.shdrs ++ [sec] }

def layout (manager : ShdrManager) (layout : ElfLayout) : Option (ShdrManager × ElfLayout) := do
  let sorted := manager.shdrs.insertionSort fun a b => sortKey a ≤ sortKey b
  let (shdrs, layout) ← assign layout none sorted
  let inGroup (g : Nat) := shdrs.filter fun sec => sec.header.shtype.group = some g
  return ({ shdrs, rxSecs := some (inGroup 1), rSecs := some (inGroup 0),
            rwSecs := some (inGroup 2) }, layout)

/-- The names of the sections: where a name has been added before, its offset is
used again. -/
def nameSections (shstrtab : StringTable) (nameToOff : Name → Option Nat) :
    List Section → List Section × StringTable
  | [] => ([], shstrtab)
  | sec :: secs =>
      let name := sec.header.shtype.asStr
      match nameToOff name with
      | some nameOff =>
          let (secs, shstrtab) := nameSections shstrtab nameToOff secs
          ({ sec with header := { sec.header with nameOff } } :: secs, shstrtab)
      | none =>
          let nameOff := shstrtab.curIdx.toNat
          let (secs, shstrtab) :=
            nameSections (shstrtab.add name) (Function.update nameToOff name (some nameOff)) secs
          ({ sec with header := { sec.header with nameOff } } :: secs, shstrtab)

def createShstrtabSection (manager : ShdrManager) (allocator : SectionAllocator) :
    ShdrManager × SectionAllocator :=
  let (shdrs, shstrtab) := nameSections StringTable.new (fun _ => none) manager.shdrs
  let nameOff := shstrtab.curIdx.toNat
  let shstrtabData := (shstrtab.add SectionKind.shStrTab.asStr).data
  let sec : Section :=
    { header := { nameOff, shtype := .shStrTab, addr := 0, offset := 0,
                  size := shstrtabData.length, addralign := 1 }
      data := .shstrtab }
  (addSection { manager with shdrs } sec, allocator.set .shstrtab shstrtabData)

def getShdrMap (manager : ShdrManager) : SectionKind.Map :=
  manager.shdrs.zipIdx.foldl
    (fun map sec => Function.update map sec.1.header.shtype (some (sec.2 + 1))) fun _ => none

def find (manager : ShdrManager) (shtype : SectionKind) : Option Section :=
  manager.shdrs.find? fun sec => sec.header.shtype = shtype

def getVaddr (manager : ShdrManager) (shtype : SectionKind) : Nat :=
  ((manager.find shtype).map fun sec => sec.header.addr).getD 0

def getSize (manager : ShdrManager) (shtype : SectionKind) : Nat :=
  ((manager.find shtype).map fun sec => sec.header.size).getD 0

def getDataId (manager : ShdrManager) (shtype : SectionKind) : Option SectionId :=
  (manager.find shtype).map Section.data

def getPhnum (manager : ShdrManager) : Nat :=
  let has (p : SectionKind → Bool) := manager.shdrs.any fun sec => p sec.header.shtype
  let hasRx := has fun kind => kind.group = some 1
  let hasR := has fun kind => kind.group = some 0
  let hasRw := has fun kind => kind.group = some 2
  let hasDynamic := has fun kind => kind = .dynamic
  let hasTls := has fun kind => kind = .tls
  1 + hasRx.toNat + hasR.toNat + hasRw.toNat + hasDynamic.toNat + hasTls.toNat

end ShdrManager

/-- An entry of the section header table. -/
def SectionHeader.write (h : SectionHeader) (map : SectionKind.Map) (is64 : Bool) :
    Option (List UInt8) := do
  let link ← h.shtype.link map
  let word (value : Nat) := leBytes (BitVec.ofNat 32 value)
  return word h.nameOff ++ leBytes h.shtype.shtype ++ addrBytes is64 h.shtype.flags.toNat ++
    addrBytes is64 h.addr ++ addrBytes is64 h.offset ++ addrBytes is64 h.size ++ word link ++
    word (h.shtype.info map) ++ addrBytes is64 h.addralign ++
    addrBytes is64 (h.shtype.entsize is64)

def ShdrManager.writeShdrs (manager : ShdrManager) (is64 : Bool) : Option (List UInt8) := do
  let entries ← manager.shdrs.mapM fun sec => sec.header.write manager.getShdrMap is64
  return List.replicate (if is64 then 64 else 40) 0 ++ entries.flatten

/-! ## The program headers -/

def ptLoad : BitVec 32 := 1
def ptDynamic : BitVec 32 := 2
def ptPhdr : BitVec 32 := 6
def ptTls : BitVec 32 := 7

def pfX : BitVec 32 := 1
def pfW : BitVec 32 := 2
def pfR : BitVec 32 := 4

structure ProgramHeader where
  pType : BitVec 32
  pFlags : BitVec 32
  pOffset : Nat
  pVaddr : Nat
  pFilesz : Nat
  pMemsz : Nat
  pAlign : Nat
deriving DecidableEq, Repr

/-- `write_phdr`. -/
def ProgramHeader.write (p : ProgramHeader) (is64 : Bool) : List UInt8 :=
  if is64 then
    leBytes p.pType ++ leBytes p.pFlags ++ addrBytes true p.pOffset ++ addrBytes true p.pVaddr ++
      addrBytes true p.pVaddr ++ addrBytes true p.pFilesz ++ addrBytes true p.pMemsz ++
      addrBytes true p.pAlign
  else
    leBytes p.pType ++ addrBytes false p.pOffset ++ addrBytes false p.pVaddr ++
      addrBytes false p.pVaddr ++ addrBytes false p.pFilesz ++ addrBytes false p.pMemsz ++
      leBytes p.pFlags ++ addrBytes false p.pAlign

/-- The segment from the first to the last section of a group. The read-only one
starts at offset zero, to cover the file header and the program headers. -/
def loadSegment (secs : List Section) (flags : BitVec 32) (fromStart : Bool) (pageSize : Nat) :
    Option (List ProgramHeader) :=
  match secs.head?, secs.getLast? with
  | some first, some last => do
      let pOffset := if fromStart then 0 else first.header.offset
      let pVaddr ←
        if fromStart then subU64 first.header.addr first.header.offset else some first.header.addr
      let fileEnd ← addU64 last.header.offset last.header.size
      let pFilesz ← subU64 fileEnd pOffset
      return [{ pType := ptLoad, pFlags := flags, pOffset, pVaddr, pFilesz, pMemsz := pFilesz,
                pAlign := pageSize }]
  | _, _ => some []

/-- The segment that is one section. -/
def sectionSegment (sec : Option Section) (type flags : BitVec 32) (align : Nat) :
    List ProgramHeader :=
  match sec with
  | some sec =>
      [{ pType := type, pFlags := flags, pOffset := sec.header.offset, pVaddr := sec.header.addr,
         pFilesz := sec.header.size, pMemsz := sec.header.size, pAlign := align }]
  | none => []

/-- The headers `write_phdrs` writes, in order. -/
def ShdrManager.phdrs (manager : ShdrManager) (is64 : Bool) (pageSize : Nat) :
    Option (List ProgramHeader) := do
  let rxSecs ← manager.rxSecs
  let rSecs ← manager.rSecs
  let rwSecs ← manager.rwSecs
  let phSize := (if is64 then 56 else 32) * manager.getPhnum
  let phdr : ProgramHeader :=
    { pType := ptPhdr, pFlags := pfR, pOffset := if is64 then 64 else 52,
      pVaddr := if is64 then 64 else 52, pFilesz := phSize, pMemsz := phSize, pAlign := 8 }
  let r ← loadSegment rSecs pfR true pageSize
  let rx ← loadSegment rxSecs (pfR ||| pfX) false pageSize
  let rw ← loadSegment rwSecs (pfR ||| pfW) false pageSize
  let dynamic := sectionSegment (manager.find .dynamic) ptDynamic (pfR ||| pfW) 8
  let tls := sectionSegment (manager.find .tls) ptTls pfR (if is64 then 8 else 4)
  return phdr :: (r ++ rx ++ rw ++ dynamic ++ tls)

def ShdrManager.writePhdrs (manager : ShdrManager) (is64 : Bool) (pageSize : Nat) :
    Option (List UInt8) := do
  let phdrs ← manager.phdrs is64 pageSize
  return phdrs.flatMap fun p => p.write is64

end ElfLoader.GenElf
