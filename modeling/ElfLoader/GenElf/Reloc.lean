import ElfLoader.GenElf.Symtab

/-! # The relocations of a generated library (`dylib/reloc.rs`)

Relocations are collected class by class, with offsets into the section they
patch. When the sections are placed the offsets become addresses, the entries are
written, and the slots they patch get their first content.
-/

namespace ElfLoader.GenElf

open ByteMemory Splice

/-- The pass of `RelocMetaData::new` that takes a relocation. -/
inductive RelocClass where
  | relative
  | irelative
  | plt
  | copy
  | got
deriving DecidableEq, Repr

def RelocEntry.relocClass (arch : Arch) (r : RelocEntry) : RelocClass :=
  if r.rType = arch.relativeReloc then .relative
  else if r.rType = arch.irelativeReloc then .irelative
  else if r.rType = arch.jumpSlotReloc then .plt
  else if r.rType = arch.copyReloc then .copy
  else .got

structure Reloc where
  symIdx : Nat
  offset : Nat
  addend : BitVec 64
  rType : BitVec 32
  symSize : Nat
deriving DecidableEq, Repr

def Reloc.write (reloc : Reloc) (is64 isRela : Bool) : List UInt8 :=
  if is64 then
    let rInfo := BitVec.ofNat 64 reloc.symIdx <<< 32 ||| reloc.rType.setWidth 64
    addrBytes true reloc.offset ++ leBytes rInfo ++ if isRela then leBytes reloc.addend else []
  else
    let rInfo := BitVec.ofNat 32 reloc.symIdx <<< 8 ||| (reloc.rType &&& 0xff)
    addrBytes false reloc.offset ++ leBytes rInfo ++
      if isRela then leBytes (reloc.addend.setWidth 32) else []

structure RelocMetaData where
  arch : Arch
  relocs : List Reloc
  relativeCount : Nat
  gotCount : Nat
  copyCount : Nat
  pltCount : Nat
  irelativeCount : Nat
  totalCopySize : Nat

namespace RelocMetaData

/-- Relocations of consecutive slots, the first of which is `first`. -/
def slotRelocs (wordSize first : Nat) (symIdx : RelocEntry → Option Nat)
    (addend : RelocEntry → BitVec 64) (rs : List RelocEntry) : Option (List Reloc) :=
  rs.zipIdx.mapM fun r => do
    let symIdx ← symIdx r.1
    return { symIdx, offset := (first + r.2) * wordSize, addend := addend r.1, rType := r.1.rType,
             symSize := 0 }

/-- The copies stand behind the contents of `.data`, from `offset` on. -/
def copyRelocs (symtab : SymTabMetadata) (offset : Nat) : List RelocEntry → Option (List Reloc)
  | [] => some []
  | r :: rs => do
      let symIdx ← symtab.getSymIdx r.symbolName
      let symSize ← symtab.getSymSize symIdx
      let relocs ← copyRelocs symtab (offset + symSize) rs
      return { symIdx, offset, addend := 0, rType := r.rType, symSize } :: relocs

def relEntrySize (arch : Arch) : Nat :=
  if arch.is64 then if arch.isRela then 24 else 16 else if arch.isRela then 12 else 8

section Sizes

variable (reloc : RelocMetaData)

def relDynSize : Nat :=
  (reloc.relativeCount + reloc.gotCount + reloc.copyCount + reloc.irelativeCount) *
    relEntrySize reloc.arch

def relPltSize : Nat := reloc.pltCount * relEntrySize reloc.arch

def gotSize : Nat :=
  (1 + reloc.relativeCount + reloc.gotCount + reloc.irelativeCount) * reloc.arch.wordSize

def gotPltSize : Nat := (3 + reloc.pltCount) * reloc.arch.wordSize

end Sizes

/-- The debug assertion that a `RELATIVE` entry names no symbol is left out. -/
def new (arch : Arch) (raw : List RelocEntry) (symtab : SymTabMetadata)
    (allocator : SectionAllocator) : Option (RelocMetaData × SectionAllocator) := do
  let ofClass (c : RelocClass) := raw.filter fun r => r.relocClass arch = c
  let relativeRelocs := ofClass .relative
  let gotRelocs := ofClass .got
  let copies := ofClass .copy
  let pltRelocs := ofClass .plt
  let irelativeRelocs := ofClass .irelative
  let named (r : RelocEntry) := symtab.getSymIdx r.symbolName
  let unnamed (_ : RelocEntry) := some 0
  let word := arch.wordSize
  let relative ← slotRelocs word 0 unnamed RelocEntry.addend relativeRelocs
  let got ← slotRelocs word relativeRelocs.length named RelocEntry.addend gotRelocs
  let copy ← copyRelocs symtab symtab.getDataContent.length copies
  let irelative ←
    slotRelocs word (relativeRelocs.length + gotRelocs.length) unnamed (fun _ => 0) irelativeRelocs
  let plt ← slotRelocs word 3 named (fun _ => 0) pltRelocs
  let reloc : RelocMetaData :=
    { arch
      relocs := relative ++ got ++ copy ++ irelative ++ plt
      relativeCount := relativeRelocs.length
      gotCount := gotRelocs.length
      copyCount := copies.length
      pltCount := pltRelocs.length
      irelativeCount := irelativeRelocs.length
      totalCopySize := (copy.map Reloc.symSize).sum }
  return (reloc,
    (((allocator.set .relDyn (List.replicate reloc.relDynSize 0)).set .relPlt
      (List.replicate reloc.relPltSize 0)).set .got
      (List.replicate reloc.gotSize 0)).set .gotPlt (List.replicate reloc.gotPltSize 0))

/-- Write a word into one of the two tables. -/
def storeWord (is64 : Bool) (id : SectionId) (offset value : Nat) (allocator : SectionAllocator) :
    Option SectionAllocator :=
  (splice (allocator id) offset (addrBytes is64 value)).map (allocator.set id)

/-- `patch_got`. -/
def patchGot (reloc : RelocMetaData) (dynVaddr pltVaddr : Nat) (allocator : SectionAllocator) :
    Option SectionAllocator := do
  let is64 := reloc.arch.is64
  let allocator ← storeWord is64 .got 0 dynVaddr allocator
  let allocator ← storeWord is64 .gotPlt 0 dynVaddr allocator
  (List.range reloc.pltCount).foldlM
    (fun allocator i =>
      let pltOff := getPlt0Size reloc.arch + i * getPltEntrySize reloc.arch
      storeWord is64 .gotPlt ((3 + i) * reloc.arch.wordSize)
        (getGotPltInitValue reloc.arch pltVaddr pltOff) allocator)
    allocator

/-- The addresses `patch_reloc` is given. -/
structure Vaddrs where
  got : Nat
  gotPlt : Nat
  data : Nat
  plt : Nat

/-- The addend the entry is written with. -/
def addendOf (arch : Arch) (vaddrs : Vaddrs) (symtab : SymTabMetadata) (r : Reloc) :
    Option (BitVec 64) :=
  if r.rType = arch.irelativeReloc then
    (symtab.getSymValueByName ifuncResolverName).map (BitVec.ofNat 64)
  else
    let symValue := if r.symIdx ≠ 0 then symtab.getSymValue r.symIdx else some 0
    symValue.map (calculateAddend arch r.rType r.offset vaddrs.data)

/-- Write the word if the condition holds. -/
def storeWordIf (c : Bool) (is64 : Bool) (id : SectionId) (offset value : Nat)
    (allocator : SectionAllocator) : Option SectionAllocator :=
  if c then storeWord is64 id offset value allocator else some allocator

/-- One turn of the loop of `patch_reloc`, for the relocation at position `i`. -/
def patchOne (reloc : RelocMetaData) (vaddrs : Vaddrs) (symtab : SymTabMetadata) (i : Nat)
    (r : Reloc) (allocator : SectionAllocator) : Option (Reloc × SectionAllocator) := do
  let arch := reloc.arch
  let pltStart := reloc.relativeCount + reloc.gotCount + reloc.copyCount + reloc.irelativeCount
  let copyStart := reloc.relativeCount + reloc.gotCount
  let copyEnd := copyStart + reloc.copyCount
  let isCopy : Bool := copyStart ≤ i ∧ i < copyEnd
  let isPlt : Bool := pltStart ≤ i ∧ i < pltStart + reloc.pltCount
  let addend ← addendOf arch vaddrs symtab r
  let pltOff := getPlt0Size arch + (i - pltStart) * getPltEntrySize arch
  let initialVal := getGotPltInitValue arch vaddrs.plt pltOff
  let allocator ← storeWordIf isPlt arch.is64 .gotPlt r.offset initialVal allocator
  let (base, sectionId) :=
    if i < pltStart then (if isCopy then vaddrs.data else vaddrs.got, SectionId.relDyn)
    else (vaddrs.gotPlt, SectionId.relPlt)
  -- without an addend field the addend is stored in the slot
  let allocator ←
    storeWordIf (!arch.isRela && !isPlt && !isCopy) arch.is64 .got r.offset addend.toNat allocator
  let offset ← addU64 r.offset base
  let r := { r with offset, addend }
  let entries := allocator sectionId ++ r.write arch.is64 arch.isRela
  return (r, allocator.set sectionId entries)

/-- The loop of `patch_reloc`, from position `i` on. -/
def patchFrom (reloc : RelocMetaData) (vaddrs : Vaddrs) (symtab : SymTabMetadata) :
    Nat → List Reloc → SectionAllocator → Option (List Reloc × SectionAllocator)
  | _, [], allocator => some ([], allocator)
  | i, r :: rs, allocator => do
      let (r, allocator) ← reloc.patchOne vaddrs symtab i r allocator
      let (rs, allocator) ← patchFrom reloc vaddrs symtab (i + 1) rs allocator
      return (r :: rs, allocator)

def patchReloc (reloc : RelocMetaData) (vaddrs : Vaddrs) (symtab : SymTabMetadata)
    (allocator : SectionAllocator) : Option (RelocMetaData × SectionAllocator) := do
  let allocator := (allocator.set .relDyn []).set .relPlt []
  let (relocs, allocator) ← reloc.patchFrom vaddrs symtab 0 reloc.relocs allocator
  return ({ reloc with relocs }, allocator)

def patchAll (reloc : RelocMetaData) (manager : ShdrManager) (symtab : SymTabMetadata)
    (allocator : SectionAllocator) : Option (RelocMetaData × SectionAllocator) := do
  let pltVaddr := manager.getVaddr .plt
  let allocator ← reloc.patchGot (manager.getVaddr .dynamic) pltVaddr allocator
  reloc.patchReloc
    { got := manager.getVaddr .got
      gotPlt := manager.getVaddr .gotPlt
      data := manager.getVaddr .data
      plt := pltVaddr }
    symtab allocator

def createSections (reloc : RelocMetaData) : List Section :=
  let align := if reloc.arch.is64 then 8 else 4
  let rela := reloc.arch.isRela
  [.unplaced (if rela then .relaDyn else .relDyn) reloc.relDynSize align .relDyn,
    .unplaced (if rela then .relaPlt else .relPlt) reloc.relPltSize align .relPlt,
    .unplaced .got reloc.gotSize 8 .got,
    .unplaced .gotPlt reloc.gotPltSize 8 .gotPlt]

end RelocMetaData

end ElfLoader.GenElf
