import ElfLoader.Elf.Symbol
import ElfLoader.GenElf.Code
import ElfLoader.GenElf.Section

/-! # The symbol table of a generated library (`dylib/symtab.rs`)

Descriptions are added one by one. Each gets a symbol whose value is the offset of
its content among the contents of the same section; the values become addresses
when the sections have been placed. The code of the lazy binding stubs is added
the same way.
-/

namespace ElfLoader.GenElf

open ByteMemory

def helperSuffix : Name := ascii "@helper"
def pltSuffix : Name := ascii "@plt"
def ifuncResolverName : Name := ascii "__ifunc_resolver"
def plt0Name : Name := ascii "PLT0"

structure Symbol where
  nameIdx : BitVec 32
  info : UInt8
  other : UInt8
  shndx : BitVec 16
  value : Nat
  size : Nat
deriving DecidableEq, Repr

namespace Symbol

def null : Symbol where
  nameIdx := 0
  info := 0
  other := 0
  shndx := 0
  value := 0
  size := 0

def write (sym : Symbol) (is64 : Bool) : List UInt8 :=
  if is64 then
    leBytes sym.nameIdx ++ [sym.info, sym.other] ++ leBytes sym.shndx ++
      addrBytes true sym.value ++ addrBytes true sym.size
  else
    leBytes sym.nameIdx ++ addrBytes false sym.value ++ addrBytes false sym.size ++
      [sym.info, sym.other] ++ leBytes sym.shndx

end Symbol

def SymbolScope.stBind : SymbolScope → UInt8
  | .global => stbGlobal
  | .local => stbLocal
  | .weak => stbWeak

def SymbolType.stType : SymbolType → UInt8
  | .func => sttFunc
  | .object => sttObject
  | .tls => sttTls

namespace SymbolDesc

/-- `st_info`: the scope in the high half, the type in the low one. -/
def info (s : SymbolDesc) : UInt8 := s.scope.stBind <<< 4 ||| s.symType.stType

def symSize (s : SymbolDesc) : Nat :=
  s.size.getD ((s.content.map fun c => c.data.length).getD 0)

/-- The section of a symbol without content. -/
def undefinedKind (s : SymbolDesc) : SectionKind :=
  match s.symType with
  | .func => .text
  | .object => .data
  | .tls => .tls

end SymbolDesc

/-- `HashMap::insert`. -/
def insertIndex (map : List (Nat × Nat)) (key value : Nat) : List (Nat × Nat) :=
  map.filter (fun e => e.1 ≠ key) ++ [(key, value)]

/-- The order in which a hash map hands out its entries. -/
structure HashOrder where
  iter : List (Nat × Nat) → List (Nat × Nat)
  perm : ∀ map, (iter map).Perm map

structure SymTabMetadata where
  arch : Arch
  dynstr : StringTable
  dynsym : List Symbol
  dynsymShdrTypes : List SectionKind
  symIndex : Name → Option Nat
  helperIndex : List (Nat × Nat)
  symbols : List SymbolDesc
  dynsymSize : Nat
  dynstrSize : Nat
  hashSize : Nat
  textOffset : Nat
  dataOffset : Nat
  tlsOffset : Nat
  pltOffset : Nat
  plt0Idx : Option Nat
  pltEntries : List (Nat × Nat)

namespace SymTabMetadata

/-- Its index is the length of `dynsym` before. -/
def addSymbol (symtab : SymTabMetadata) (name : Name) (sym : Symbol) (shdrType : SectionKind) :
    SymTabMetadata :=
  { symtab with
    dynsym := symtab.dynsym ++ [sym]
    dynsymShdrTypes := symtab.dynsymShdrTypes ++ [shdrType]
    dynstr := symtab.dynstr.add name
    symIndex := Function.update symtab.symIndex name (some symtab.dynsym.length) }

/-- Take room for a content in its section. -/
def takeRoom (symtab : SymTabMetadata) (content : Content) : Option (SymTabMetadata × Nat) :=
  let len := content.data.length
  match content.kind with
  | .text => some ({ symtab with textOffset := symtab.textOffset + len }, symtab.textOffset)
  | .data => some ({ symtab with dataOffset := symtab.dataOffset + len }, symtab.dataOffset)
  | .tls => some ({ symtab with tlsOffset := symtab.tlsOffset + len }, symtab.tlsOffset)
  | .plt => some ({ symtab with pltOffset := symtab.pltOffset + len }, symtab.pltOffset)
  | _ => none

/-- The section and the value of a new symbol. -/
def locate (symtab : SymTabMetadata) (s : SymbolDesc) :
    Option (SymTabMetadata × SectionKind × Nat) :=
  match s.content with
  | some content => do
      let (symtab, off) ← symtab.takeRoom content
      return (symtab, content.kind, off)
  | none => some (symtab, s.undefinedKind, 0)

def addSingleSymbol (symtab : SymTabMetadata) (s : SymbolDesc) : Option (SymTabMetadata × Nat) :=
  match symtab.symIndex s.name with
  | some idx => some (symtab, idx)
  | none => do
      let nameIdx := symtab.dynstr.curIdx
      let (symtab, shdrType, value) ← symtab.locate s
      let sym : Symbol :=
        { nameIdx, info := s.info, other := 0, shndx := 0, value, size := s.symSize }
      let idx := symtab.dynsym.length
      let symtab := symtab.addSymbol s.name sym shdrType
      return ({ symtab with symbols := symtab.symbols ++ [s] }, idx)

def addSymbols (symtab : SymTabMetadata) (symbols : List SymbolDesc) : Option SymTabMetadata := do
  let resolverCode := getIfuncResolverCode symtab.arch
  let (symtab, _) ← symtab.addSingleSymbol (.globalFunc ifuncResolverName resolverCode)
  symbols.foldlM (fun symtab s => (symtab.addSingleSymbol s).map Prod.fst) symtab

/-- One turn of the loop of `add_plt_symbols`: the stub and its helper. -/
def addPltEntry (symtab : SymTabMetadata) (gotPltIdx relocIdx : Nat) (reloc : RelocEntry) :
    Option SymTabMetadata := do
  let pltCode := generatePltEntryCode symtab.arch (BitVec.ofNat 32 relocIdx)
    (BitVec.ofNat 64 symtab.pltOffset)
  let (symtab, pltIdx) ←
    symtab.addSingleSymbol (.pltFunc (reloc.symbolName ++ pltSuffix) pltCode)
  let symtab := { symtab with pltEntries := symtab.pltEntries ++ [(pltIdx, gotPltIdx)] }
  let helperCode := generateHelperCode symtab.arch
  let (symtab, helperIdx) ←
    symtab.addSingleSymbol (.globalFunc (reloc.symbolName ++ helperSuffix) helperCode)
  return { symtab with helperIndex := insertIndex symtab.helperIndex pltIdx helperIdx }

/-- The loop of `add_plt_symbols`. -/
def addPltEntries (symtab : SymTabMetadata) (gotPltIdx relocIdx : Nat) :
    List RelocEntry → Option SymTabMetadata
  | [] => some symtab
  | reloc :: relocs => do
      let symtab ← symtab.addPltEntry gotPltIdx relocIdx reloc
      addPltEntries symtab (gotPltIdx + 1) (relocIdx + 1) relocs

/-- The relocations `is_plt_reloc` accepts. -/
def pltRelocs (arch : Arch) (relocs : List RelocEntry) : List RelocEntry :=
  relocs.filter fun r => r.rType = arch.jumpSlotReloc

def addPltSymbols (symtab : SymTabMetadata) (relocs : List RelocEntry) :
    Option SymTabMetadata := do
  let (symtab, _) ← symtab.addSingleSymbol (.pltFunc plt0Name (generatePlt0Code symtab.arch))
  let symtab := { symtab with plt0Idx := some (symtab.dynsym.length - 1) }
  symtab.addPltEntries 3 0 (pltRelocs symtab.arch relocs)

def writeDynsym (symtab : SymTabMetadata) : List UInt8 :=
  symtab.dynsym.flatMap fun sym => sym.write symtab.arch.is64

/-- One bucket, with a chain through all entries. -/
def createHashtable (symtab : SymTabMetadata) : List UInt8 :=
  let word (n : Nat) := leBytes (BitVec.ofNat 32 n)
  let len := symtab.dynsym.length
  word 1 ++ word len ++ word (if len > 1 then 1 else 0) ++ word 0 ++
    ((List.range len).drop 1).flatMap fun i => word (if i + 1 < len then i + 1 else 0)

def empty (arch : Arch) : SymTabMetadata where
  arch
  dynstr := .new
  dynsym := []
  dynsymShdrTypes := []
  symIndex := fun _ => none
  helperIndex := []
  symbols := []
  dynsymSize := 0
  dynstrSize := 0
  hashSize := 0
  textOffset := 0
  dataOffset := 0
  tlsOffset := 0
  pltOffset := 0
  plt0Idx := none
  pltEntries := []

/-- The table with all symbols, without the sizes of its sections. -/
def collect (arch : Arch) (symbols : List SymbolDesc) (relocs : List RelocEntry) :
    Option SymTabMetadata := do
  let symtab := (empty arch).addSymbol [] Symbol.null .null
  let symtab ← symtab.addSymbols symbols
  symtab.addPltSymbols relocs

def new (arch : Arch) (symbols : List SymbolDesc) (relocs : List RelocEntry)
    (allocator : SectionAllocator) : Option (SymTabMetadata × SectionAllocator) := do
  let symtab ← collect arch symbols relocs
  let dynstr := symtab.dynstr.data
  let dynsym := symtab.writeDynsym
  let hash := symtab.createHashtable
  return ({ symtab with dynstrSize := dynstr.length, dynsymSize := dynsym.length,
                        hashSize := hash.length },
    ((allocator.set .dynstr dynstr).set .dynsym dynsym).set .hash hash)

/-- The contents that go to a section, in the order of the symbols. -/
def getContent (symtab : SymTabMetadata) (kind : SectionKind) : List UInt8 :=
  symtab.symbols.flatMap fun s =>
    match s.content with
    | some c => if c.kind = kind then c.data else []
    | none => []

def getTextContent (symtab : SymTabMetadata) : List UInt8 := symtab.getContent .text

def getPltContent (symtab : SymTabMetadata) : List UInt8 := symtab.getContent .plt

def getDataContent (symtab : SymTabMetadata) : List UInt8 := symtab.getContent .data

def getTlsContent (symtab : SymTabMetadata) : List UInt8 := symtab.getContent .tls

def getSymIdx (symtab : SymTabMetadata) (name : Name) : Option Nat := symtab.symIndex name

def getSymValue (symtab : SymTabMetadata) (idx : Nat) : Option Nat :=
  symtab.dynsym[idx]?.map Symbol.value

def getSymValueByName (symtab : SymTabMetadata) (name : Name) : Option Nat := do
  let idx ← symtab.symIndex name
  symtab.getSymValue idx

def getSymSize (symtab : SymTabMetadata) (idx : Nat) : Option Nat :=
  symtab.dynsym[idx]?.map Symbol.size

/-- The new value and section index of a symbol; an undefined one, and one whose
section does not exist, stays as it is. -/
def placeSymbol (pltVaddr textVaddr dataVaddr : Nat) (shdrMap : SectionKind.Map) (s : SymbolDesc)
    (shdrType : SectionKind) (sym : Symbol) : Option Symbol :=
  if s.content.isNone then some sym
  else
    match shdrMap shdrType with
    | none => some sym
    | some secIdx => do
        let baseVaddr :=
          match shdrType with
          | .text => textVaddr
          | .data => dataVaddr
          | .plt => pltVaddr
          | _ => 0
        let value ← addU64 sym.value baseVaddr
        return { sym with shndx := BitVec.ofNat 16 secIdx, value }

/-- The loop runs over the symbols behind the null symbol, with the descriptions
and the sections at the same positions. -/
def placeSymbols (place : SymbolDesc → SectionKind → Symbol → Option Symbol) :
    List SymbolDesc → List SectionKind → List Symbol → Option (List Symbol)
  | _, _, [] => some []
  | s :: symbols, shdrType :: types, sym :: syms => do
      let sym ← place s shdrType sym
      let syms ← placeSymbols place symbols types syms
      return sym :: syms
  | _, _, _ :: _ => none

def updateSymbolValues (symtab : SymTabMetadata) (pltVaddr textVaddr dataVaddr : Nat)
    (shdrMap : SectionKind.Map) : Option SymTabMetadata := do
  let placed ← placeSymbols (placeSymbol pltVaddr textVaddr dataVaddr shdrMap) symtab.symbols
    (symtab.dynsymShdrTypes.drop 1) (symtab.dynsym.drop 1)
  return { symtab with dynsym := symtab.dynsym.take 1 ++ placed }

def patchSymtab (symtab : SymTabMetadata) (pltVaddr textVaddr dataVaddr : Nat)
    (shdrMap : SectionKind.Map) (allocator : SectionAllocator) :
    Option (SymTabMetadata × SectionAllocator) := do
  let symtab ← symtab.updateSymbolValues pltVaddr textVaddr dataVaddr shdrMap
  return (symtab, allocator.set .dynsym symtab.writeDynsym)

/-- One stub of `patch_plt`. -/
def patchEntry (symtab : SymTabMetadata) (pltVaddr gotPltVaddr : Nat) (pltData : List UInt8)
    (entry : Nat × Nat) : Option (List UInt8) := do
  let value ← symtab.getSymValue entry.1
  let pltOff ← subU64 value pltVaddr
  let targetGotVaddr ← addU64 gotPltVaddr (entry.2 * symtab.arch.wordSize)
  patchPltEntry symtab.arch pltData pltOff (BitVec.ofNat 64 value)
    (BitVec.ofNat 64 targetGotVaddr) (BitVec.ofNat 64 gotPltVaddr)

/-- The first stub of `patch_plt`. -/
def patchHead (symtab : SymTabMetadata) (pltData : List UInt8) (pltVaddr gotPltVaddr : Nat) :
    Option (List UInt8) :=
  match symtab.plt0Idx with
  | some plt0Idx => do
      let value ← symtab.getSymValue plt0Idx
      let plt0Off ← subU64 value pltVaddr
      patchPlt0 symtab.arch pltData plt0Off (BitVec.ofNat 64 value) (BitVec.ofNat 64 gotPltVaddr)
  | none => some pltData

def patchPlt (symtab : SymTabMetadata) (pltData : List UInt8) (pltVaddr gotPltVaddr : Nat) :
    Option (List UInt8) := do
  let pltData ← symtab.patchHead pltData pltVaddr gotPltVaddr
  symtab.pltEntries.foldlM (symtab.patchEntry pltVaddr gotPltVaddr) pltData

/-- One helper of `patch_helpers`. -/
def patchOneHelper (symtab : SymTabMetadata) (textVaddr gotVaddr : Nat) (textData : List UInt8)
    (entry : Nat × Nat) : Option (List UInt8) := do
  let targetPltVaddr ← symtab.getSymValue entry.1
  let value ← symtab.getSymValue entry.2
  let helperTextOff ← subU64 value textVaddr
  patchHelper symtab.arch textData helperTextOff (BitVec.ofNat 64 value)
    (BitVec.ofNat 64 targetPltVaddr) (BitVec.ofNat 64 gotVaddr)

def patchHelpers (symtab : SymTabMetadata) (order : HashOrder) (textData : List UInt8)
    (textVaddr gotVaddr : Nat) : Option (List UInt8) :=
  (order.iter symtab.helperIndex).foldlM (symtab.patchOneHelper textVaddr gotVaddr) textData

def patchIfunc (symtab : SymTabMetadata) (textData : List UInt8) (textVaddr targetVaddr : Nat) :
    Option (List UInt8) :=
  match symtab.symIndex ifuncResolverName with
  | some resolverIdx => do
      let value ← symtab.getSymValue resolverIdx
      let resolverTextOff ← subU64 value textVaddr
      patchIfuncResolver symtab.arch textData resolverTextOff (BitVec.ofNat 64 value)
        (BitVec.ofNat 64 targetVaddr)
  | none => some textData

def createSections (symtab : SymTabMetadata) : List Section :=
  [.unplaced .dynStr symtab.dynstrSize 1 .dynstr,
    .unplaced .dynSym symtab.dynsymSize 8 .dynsym,
    .unplaced .hash symtab.hashSize 4 .hash]

end SymTabMetadata

end ElfLoader.GenElf
