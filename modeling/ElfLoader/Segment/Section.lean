import ElfLoader.Relocation.Static
import ElfLoader.Segment.Pages

/-! # Segments from section headers (`src/segment/section.rs`)

The units of the source hold mutable references to headers. Here a reference is
the position of the header in one table: the headers of the object, then the
synthetic GOT and PLT headers. Placing a section writes `sh_addr` in the table.
-/

namespace ElfLoader

open ByteMemory

variable {w : Nat} {K O : Type}

structure ElfShdr (w : Nat) where
  shName : UInt32
  shType : UInt32
  shFlags : BitVec w
  shAddr : BitVec w
  shOffset : BitVec w
  shSize : BitVec w
  shLink : UInt32
  shInfo : UInt32
  shAddralign : BitVec w
  shEntsize : BitVec w
deriving DecidableEq, Inhabited

def shtRela : UInt32 := 4
def shtNobits : UInt32 := 8
def shtRel : UInt32 := 9
def shfWrite : Nat := 1
def shfAlloc : Nat := 2
def shfExecinstr : Nat := 4

def sectionProt (shFlags : BitVec w) : ProtFlags :=
  ProtFlags.protRead ∪
    (if shFlags &&& BitVec.ofNat w shfWrite ≠ 0 then ProtFlags.protWrite else ProtFlags.protNone) ∪
    (if shFlags &&& BitVec.ofNat w shfExecinstr ≠ 0 then ProtFlags.protExec
      else ProtFlags.protNone)

def ProtFlags.contains (prot other : ProtFlags) : Bool := prot.bits &&& other.bits == other.bits

def protToIdx (prot : ProtFlags) : Fin 4 :=
  (if prot.contains ProtFlags.protWrite then 1 else 0) +
    (if prot.contains ProtFlags.protExec then 2 else 0)

def flagsToIdx (flags : BitVec w) : Fin 4 := protToIdx (sectionProt flags)

/-! ## The size of the GOT and the PLT -/

/-- What a `StaticRelocator` says about relocation types. -/
structure StaticReloc where
  needsGot : Nat → Bool
  needsPlt : Nat → Bool

namespace X86_64Relocator

def needsGot (relType : Nat) : Bool := relType == rX86_64_GOTPCREL || relType == rX86_64_PLT32

def needsPlt (relType : Nat) : Bool := relType == rX86_64_PLT32

def staticReloc : StaticReloc := ⟨needsGot, needsPlt⟩

end X86_64Relocator

/-- The relocator of the other targets (`src/arch/mod.rs`). -/
def DummyRelocator.staticReloc : StaticReloc := ⟨fun _ => false, fun _ => false⟩

/-- The `k`-th word of an entry; bytes that are missing count as zero. -/
def entryWord (bytes : List UInt8) (k : Nat) : BitVec w :=
  BitVec.ofNat w (leNat ((bytes.drop (k * (w / 8))).take (w / 8)))

/-- The unaligned read of an entry. -/
def ElfRelType.ofBytes (bytes : List UInt8) : ElfRelType w where
  rOffset := entryWord bytes 0
  rInfo := entryWord bytes 1
  rAddend := entryWord bytes 2

/-- The entries of a section: its whole chunks of `entsize` bytes. -/
def relEntries (entsize : Nat) (buf : List UInt8) : List (ElfRelType w) :=
  (List.range (buf.length / entsize)).map fun k => .ofBytes (buf.drop (k * entsize))

namespace PltGotSection

/-- The sets `got_set` and `plt_set` after one more entry. -/
def countEntry (S : StaticReloc) (sets : Finset Nat × Finset Nat) (rel : ElfRelType w) :
    Finset Nat × Finset Nat :=
  (if S.needsGot rel.rType then insert rel.rSymbol sets.1 else sets.1,
    if S.needsPlt rel.rType then insert rel.rSymbol sets.2 else sets.2)

/-- One section of `count_needed_entries`. A section that cannot be read is
skipped. -/
def countShdr (S : StaticReloc) (R : ElfReader w O) (sets : Finset Nat × Finset Nat)
    (shdr : ElfShdr w) : EStateM Halt O (Finset Nat × Finset Nat) := fun o =>
  if shdr.shType ≠ shtRel ∧ shdr.shType ≠ shtRela then .ok sets o
  else if shdr.shSize = 0 ∨ shdr.shEntsize = 0 then .ok sets o
  else
    match R.read shdr.shSize.toNat shdr.shOffset o with
    | .ok buf o =>
        .ok ((relEntries shdr.shEntsize.toNat buf : List (ElfRelType w)).foldl (countEntry S) sets) o
    | .error (.err _) o => .ok sets o
    | .error h o => .error h o

/-- The number of GOT slots and of PLT entries that the sections can ask for. -/
def countNeededEntries (S : StaticReloc) (R : ElfReader w O) (shdrs : List (ElfShdr w)) :
    EStateM Halt O (Nat × Nat) := do
  let sets ← shdrs.foldlM (countShdr S R) (∅, ∅)
  return (sets.1.card + sets.2.card, sets.2.card)

def createGotShdr (elemCnt : Nat) : ElfShdr w where
  shName := 0
  shType := shtNobits
  shFlags := BitVec.ofNat w (shfAlloc + shfWrite)
  shAddr := 0
  shOffset := 0
  shSize := BitVec.ofNat w (elemCnt * (w / 8))
  shLink := 0
  shInfo := 0
  shAddralign := 16
  shEntsize := BitVec.ofNat w (w / 8)

def createPltShdr (elemCnt : Nat) : ElfShdr w where
  shName := 0
  shType := shtNobits
  shFlags := BitVec.ofNat w (shfAlloc + shfExecinstr)
  shAddr := 0
  shOffset := 0
  shSize := BitVec.ofNat w (elemCnt * pltEntrySize)
  shLink := 0
  shInfo := 0
  shAddralign := BitVec.ofNat w (w / 8)
  shEntsize := BitVec.ofNat w pltEntrySize

end PltGotSection

/-! ## Units -/

/-- The sections of one protection class, by their positions in the table. -/
structure SectionUnit where
  contentSections : List Nat
  zeroSectons : List Nat

namespace SectionUnit

def new : SectionUnit := ⟨[], []⟩

def addSection (unit : SectionUnit) (i : Nat) (shdr : ElfShdr w) : SectionUnit :=
  if shdr.shType = shtNobits then { unit with zeroSectons := unit.zeroSectons ++ [i] }
  else { unit with contentSections := unit.contentSections ++ [i] }

end SectionUnit

/-- `Cursor` of `create_segment`. -/
structure Cursor (w : Nat) where
  start : BitVec w
  cur : BitVec w
deriving DecidableEq

namespace Cursor

def new (start : BitVec w) : Cursor w := ⟨start, start⟩

def roundup (c : Cursor w) (align : BitVec w) : Cursor w :=
  { c with cur := ElfLoader.roundup c.cur align }

def add (c : Cursor w) (size : BitVec w) : Cursor w := { c with cur := c.cur + size }

def curOffset (c : Cursor w) : BitVec w := c.cur - c.start

end Cursor

/-- `shdr.sh_addr = addr` for the header at `i`. -/
def setShAddr (shdrs : List (ElfShdr w)) (i : Nat) (addr : BitVec w) : List (ElfShdr w) :=
  shdrs.modify i fun shdr => { shdr with shAddr := addr }

/-- The locals of `create_segment` and the table it writes to. -/
structure UnitState (w : Nat) where
  shdrs : List (ElfShdr w)
  cursor : Cursor w
  mapInfo : List (FileMapInfo w)

namespace UnitState

/-- One iteration over the content sections. -/
def placeContent (st : UnitState w) (i : Nat) : UnitState w :=
  match st.shdrs[i]? with
  | none => st
  | some shdr =>
      if shdr.shSize = 0 then st
      else
        let cursor := st.cursor.roundup shdr.shAddralign
        { shdrs := setShAddr st.shdrs i cursor.cur
          cursor := cursor.add shdr.shSize
          mapInfo := st.mapInfo ++
            [{ start := cursor.curOffset, filesz := shdr.shSize, offset := shdr.shOffset }] }

/-- The content section at the file offset of a map entry. -/
def findOffset (shdrs : List (ElfShdr w)) (content : List Nat) (offset : BitVec w) : Option Nat :=
  content.find? fun i => shdrs[i]?.any fun shdr => shdr.shOffset == offset

/-- A single content section is mapped from the start of its page, and its
header moves by the residue. Which header that is, is looked up by file offset. -/
def alignSingle (content : List Nat) (st : UnitState w) : UnitState w :=
  match st.mapInfo with
  | [info] =>
      match findOffset st.shdrs content info.offset with
      | none => st
      | some i =>
          let fileOffset := rounddown info.offset (pageSize w)
          let alignLen := info.offset - fileOffset
          { shdrs := st.shdrs.modify i fun shdr => { shdr with shAddr := shdr.shAddr + alignLen }
            cursor := st.cursor.add alignLen
            mapInfo := [{ info with filesz := info.filesz + alignLen, offset := fileOffset }] }
  | _ => st

/-- One iteration over the zero-initialised sections. -/
def placeZero (st : UnitState w) (i : Nat) : UnitState w :=
  match st.shdrs[i]? with
  | none => st
  | some shdr =>
      let cursor := st.cursor.roundup shdr.shAddralign
      { st with
        shdrs := setShAddr st.shdrs i cursor.cur
        cursor := cursor.add shdr.shSize }

end UnitState

namespace SectionUnit

/-- The content sections laid out from `offset` on. -/
def placeContents (unit : SectionUnit) (shdrs : List (ElfShdr w)) (offset : BitVec w) :
    UnitState w :=
  (unit.contentSections.foldl UnitState.placeContent
    { shdrs, cursor := Cursor.new offset, mapInfo := [] }).alignSingle unit.contentSections

/-- `SectionUnit::create_segment`: the segment, the table and the next offset. -/
def createSegment (unit : SectionUnit) (shdrs : List (ElfShdr w)) (offset : BitVec w) :
    Option (ElfSegment w) × List (ElfShdr w) × BitVec w :=
  match (unit.contentSections.head?.or unit.zeroSectons.head?).bind (shdrs[·]?) with
  | none => (none, shdrs, offset)
  | some first =>
      let content := unit.placeContents shdrs offset
      let contentSize := content.cursor.curOffset
      let st := unit.zeroSectons.foldl UnitState.placeZero content
      let zeroSize := st.cursor.curOffset - contentSize
      let len := roundup (contentSize + zeroSize) (pageSize w)
      if len = 0 then (none, st.shdrs, offset)
      else
        (some {
          addr := .relative offset
          prot := sectionProt first.shFlags
          flags := MapFlags.mapPrivate ∪ MapFlags.mapFixed
          len
          contentSize
          zeroSize
          mapInfo := st.mapInfo
          needCopy := false
          fromRelocatable := true }, st.shdrs, offset + len)

end SectionUnit

/-! ## The segments of an object -/

/-- `SectionSegments`; of `pltgot` the two bases it starts with. -/
structure SectionSegments (w : Nat) where
  segments : List (ElfSegment w)
  totalSize : BitVec w
  gotBase : BitVec w
  pltBase : BitVec w

/-- The locals of `SectionSegments::new` in the loop over the units. -/
structure LayoutState (w : Nat) where
  shdrs : List (ElfShdr w)
  segments : List (ElfSegment w)
  offset : BitVec w

namespace LayoutState

def createUnit (st : LayoutState w) (unit : SectionUnit) : LayoutState w :=
  match unit.createSegment st.shdrs st.offset with
  | (some segment, shdrs, offset) =>
      { shdrs, segments := st.segments ++ [segment], offset := roundup offset (pageSize w) }
  | (none, shdrs, offset) => { st with shdrs, offset }

end LayoutState

namespace SectionSegments

/-- Put every header of the table into the unit of its protection. -/
def groupSections (shdrs : List (ElfShdr w)) : Fin 4 → SectionUnit :=
  shdrs.zipIdx.foldl
    (fun units p => Function.update units (flagsToIdx p.1.shFlags)
      ((units (flagsToIdx p.1.shFlags)).addSection p.2 p.1))
    fun _ => SectionUnit.new

/-- The headers of the object and the two synthetic ones. -/
def table (shdrs : List (ElfShdr w)) (gotCnt pltCnt : Nat) : List (ElfShdr w) :=
  shdrs ++ [PltGotSection.createGotShdr gotCnt, PltGotSection.createPltShdr pltCnt]

/-- The loop over the units. -/
def layout (table : List (ElfShdr w)) : LayoutState w :=
  (List.finRange 4).foldl (fun st c => st.createUnit (groupSections table c))
    { shdrs := table, segments := [], offset := 0 }

/-- `SectionSegments::new`, with the headers as it leaves them, the synthetic
ones last. -/
def new (S : StaticReloc) (R : ElfReader w O) (shdrs : List (ElfShdr w)) :
    EStateM Halt O (SectionSegments w × List (ElfShdr w)) := do
  let counts ← PltGotSection.countNeededEntries S R shdrs
  let st := layout (table shdrs counts.1 counts.2)
  return ({ segments := st.segments
            totalSize := st.offset
            gotBase := (st.shdrs[shdrs.length]?.map ElfShdr.shAddr).getD 0
            pltBase := (st.shdrs[shdrs.length + 1]?.map ElfShdr.shAddr).getD 0 }, st.shdrs)

def createSpace (M : Mmap w K) (ss : SectionSegments w) : Load w K O (ElfSegments w) := do
  Load.record (.reserve none ss.totalSize)
  let memory ← Load.onOs (M.mmapReserve none ss.totalSize false)
  return { memory, offset := 0, len := ss.totalSize }

def loadSegments (M : Mmap w K) (R : ElfReader w O) (ss : SectionSegments w) :
    Load w K O (ElfSegments w × List (ElfSegment w)) :=
  ElfLoader.loadSegments M R (ss.createSpace M) (return ss.segments)

end SectionSegments

end ElfLoader
