import ElfLoader.Elf.Custom
import ElfLoader.Loader

/-! # From loaded sections to an object (`ObjectBuilder` of `src/image/builder.rs`)

The loop visits the section headers in order and keeps three variables: the
symbol table, the relocation lists and the init array. The contents of a section
are the records at its address; the lists that the loop makes of symbols and
relocations are what the rest of the loader reads through its pointers.
-/

namespace ElfLoader

open ByteMemory

variable {K : Type}

def shtSymtab : UInt32 := 2
def shtInitArray : UInt32 := 14

/-- A symbol as it stands in memory. -/
def ElfSymbol.ofBytes (bytes : List UInt8) : ElfSymbol 64 where
  stName := field32 bytes 0
  stValue := fieldWord bytes 8
  stSize := fieldWord bytes 16
  stInfo := UInt8.ofNat (fieldNat bytes 4 1)
  stOther := UInt8.ofNat (fieldNat bytes 5 1)
  stShndx := field16 bytes 6

namespace ElfSymbol

/-- `size_of::<ElfSymbol>()`. -/
def size : Nat := 24

def setValue (sym : ElfSymbol 64) (value : BitVec 64) : ElfSymbol 64 := { sym with stValue := value }

end ElfSymbol

namespace ElfRelType

/-- `size_of::<ElfRelType>()`. -/
def size : Nat := 24

def setOffset (rel : ElfRelType 64) (offset : BitVec 64) : ElfRelType 64 :=
  { rel with rOffset := offset }

end ElfRelType

/-- The records of `size` bytes that a slice refers to. -/
def Slice.records {R : Type} (ofBytes : List UInt8 → R) (size : Nat) (m : Bytes 64)
    (slice : Slice 64) : List R :=
  ElfLoader.records ofBytes size (read m slice.ptr (slice.count * size)) slice.count

/-- `content_mut`: as many elements as `sh_entsize` says, whatever their type. -/
def ElfShdr.contentMut (shdr : ElfShdr 64) : Except Halt (Slice 64) :=
  if shdr.shEntsize = 0 then .error (.panic "attempt to divide by zero")
  else .ok { ptr := shdr.shAddr, count := shdr.shSize.toNat / shdr.shEntsize.toNat }

/-- `shdrs[i]`. -/
def sectionAt (shdrs : List (ElfShdr 64)) (i : Nat) : Except Halt (ElfShdr 64) :=
  match shdrs[i]? with
  | some shdr => .ok shdr
  | none => .error (.panic "index out of bounds")

/-- The headers of the object itself. -/
def LoadedSections.objectShdrs (loaded : LoadedSections 64) : List (ElfShdr 64) :=
  loaded.shdrs.dropLast.dropLast

variable [CustomHasher]

/-- `hashbrown`: the table that a row of insertions leaves. In which order it
probes is its own affair. -/
structure TableBuilder where
  build : List TableEntry → CustomHash
  entries_build : ∀ entries, (build entries).entries = entries

/-- A table that probes in the order of insertion. -/
def TableBuilder.plain : TableBuilder where
  build entries := .probing entries entries fun _ => Iff.rfl
  entries_build _ := rfl

/-- `ObjectBuilder`, without the fields that only `build` passes on. -/
structure ObjectBuilder (K : Type) where
  name : Name
  symtab : SymbolTable 64
  initArray : Option (Slice 64)
  segments : ElfSegments 64
  relocation : List (List (ElfRelType 64))
  mprotect : EStateM Halt (OsState 64 K) Unit
  gotBase : BitVec 64
  pltBase : BitVec 64

namespace ObjectBuilder

/-- The variables of the loop over the section headers. -/
structure Parts where
  symtab : Option (SymbolTable 64)
  relocation : List (List (ElfRelType 64))
  initArray : Option (Slice 64)

section Loop

variable (H : TableBuilder) (m : Bytes 64) (base : BitVec 64) (shdrs : List (ElfShdr 64))

/-- The body of the loop over the symbols. -/
def rebaseSymbol (symbol : ElfSymbol 64) : Except Halt (ElfSymbol 64) :=
  if symbol.stType = sttFile ∨ symbol.stShndx = shnUndef then .ok symbol
  else do
    let shdr ← sectionAt shdrs symbol.stShndx.toNat
    let sectionBase := shdr.shAddr - base
    return symbol.setValue (sectionBase + symbol.stValue)

/-- The symbols of a section before and after the loop. -/
def symbolsOf (slice : Slice 64) : List (ElfSymbol 64) :=
  slice.records ElfSymbol.ofBytes ElfSymbol.size m

def rebaseSymbols (slice : Slice 64) : Except Halt (List (ElfSymbol 64)) :=
  (symbolsOf m slice).mapM (rebaseSymbol base shdrs)

/-- The arm of `SHT_SYMTAB`, with `SymbolTable::from_shdrs`. -/
def readSymtab (shdr : ElfShdr 64) : Except Halt (SymbolTable 64) := do
  let slice ← shdr.contentMut
  let symbols ← rebaseSymbols m base shdrs slice
  let strtabShdr ← sectionAt shdrs shdr.shLink.toNat
  let strtab := read m strtabShdr.shAddr strtabShdr.shSize.toNat
  let entries ← CustomHash.fromShdr symbols strtab
  return .fromShdrs (H.build entries) symbols strtab

/-- The arm of `SHT_RELA` and `SHT_REL`. -/
def readRels (shdr : ElfShdr 64) : Except Halt (List (ElfRelType 64)) := do
  let slice ← shdr.contentMut
  let target ← sectionAt shdrs shdr.shInfo.toNat
  return (slice.records ElfRelType.ofBytes ElfRelType.size m).map fun rel =>
    rel.setOffset (target.shAddr + rel.rOffset - base)

/-- The body of the loop over the section headers. -/
def storeSection (parts : Parts) (shdr : ElfShdr 64) : Except Halt Parts :=
  if shdr.shType = shtSymtab then do
    let symtab ← readSymtab H m base shdrs shdr
    return { parts with symtab := some symtab }
  else if shdr.shType = shtRela ∨ shdr.shType = shtRel then do
    let rels ← readRels m base shdrs shdr
    return { parts with relocation := parts.relocation ++ [rels] }
  else if shdr.shType = shtInitArray then do
    let array ← shdr.contentMut
    return { parts with initArray := some array }
  else return parts

end Loop

/-- The headers after `sh_addr + base`. -/
def rebaseShdrs (loaded : LoadedSections 64) : List (ElfShdr 64) :=
  loaded.objectShdrs.map fun shdr => { shdr with shAddr := shdr.shAddr + loaded.space.base }

def new (H : TableBuilder) (m : Bytes 64) (name : Name) (loaded : LoadedSections 64)
    (mprotect : EStateM Halt (OsState 64 K) Unit) : Except Halt (ObjectBuilder K) := do
  let base := loaded.space.base
  let shdrs := rebaseShdrs loaded
  let parts ← shdrs.foldlM (storeSection H m base shdrs)
    { symtab := none, relocation := [], initArray := none }
  match parts.symtab with
  | none => throw (.panic "called `Option::unwrap()` on a `None` value")
  | some symtab =>
      return {
        name
        symtab
        initArray := parts.initArray
        segments := loaded.space
        relocation := parts.relocation
        mprotect
        gotBase := loaded.gotBase + base
        pltBase := loaded.pltBase + base }

/-- `ObjectBuilder::build`; `id` is the allocation of the core. -/
def build (builder : ObjectBuilder K) (id : Nat) : RawObject K where
  core :=
    { id
      name := builder.name
      symtab := builder.symtab
      segments := builder.segments }
  relocation := builder.relocation
  gotBase := builder.gotBase
  pltBase := builder.pltBase
  mprotect := builder.mprotect
  initArray := builder.initArray

end ObjectBuilder

end ElfLoader
