import ElfLoader.Segment.Basic

/-! # Segments from program headers (`src/segment/program.rs`) -/

namespace ElfLoader

variable {w : Nat} {K O : Type}

structure ElfPhdr (w : Nat) where
  pType : UInt32
  pFlags : UInt32
  pOffset : BitVec w
  pVaddr : BitVec w
  pPaddr : BitVec w
  pFilesz : BitVec w
  pMemsz : BitVec w
  pAlign : BitVec w
deriving DecidableEq

def ptLoad : UInt32 := 1
def pfX : UInt32 := 1
def pfW : UInt32 := 2
def pfR : UInt32 := 4

def segmentProt (pFlag : UInt32) : ProtFlags :=
  ⟨(pFlag &&& pfX) <<< 2 ||| pFlag &&& pfW ||| (pFlag &&& pfR) >>> 2⟩

/-- One iteration of the loop in `parse_segments`; the accumulator holds the
lowest start and the highest end seen so far. -/
def vaddrStep (acc : BitVec w × BitVec w) (phdr : ElfPhdr w) : BitVec w × BitVec w :=
  if phdr.pType = ptLoad then
    let vaddrStart := phdr.pVaddr
    let vaddrEnd := phdr.pVaddr + phdr.pMemsz
    (if vaddrStart < acc.1 then vaddrStart else acc.1,
      if vaddrEnd > acc.2 then vaddrEnd else acc.2)
  else acc

def vaddrBounds (phdrs : List (ElfPhdr w)) : BitVec w × BitVec w :=
  phdrs.foldl vaddrStep (BitVec.allOnes w, 0)

/-- Requested address, total size and lowest page of the `PT_LOAD` segments. -/
def parseSegments (phdrs : List (ElfPhdr w)) (isDylib : Bool) :
    Option (BitVec w) × BitVec w × BitVec w :=
  let bounds := vaddrBounds phdrs
  let maxVaddr := roundup bounds.2 (pageSize w)
  let minVaddr := rounddown bounds.1 (pageSize w)
  (if isDylib then none else some minVaddr, maxVaddr - minVaddr, minVaddr)

namespace ElfPhdr

def createSegment (phdr : ElfPhdr w) : ElfSegment w :=
  let minVaddr := rounddown phdr.pVaddr (pageSize w)
  let maxVaddr := roundup (phdr.pVaddr + phdr.pMemsz) (pageSize w)
  let offset := rounddown phdr.pOffset (pageSize w)
  let alignLen := phdr.pOffset - offset
  let filesz := phdr.pFilesz + alignLen
  { addr := .relative minVaddr
    prot := segmentProt phdr.pFlags
    flags := MapFlags.mapPrivate ∪ MapFlags.mapFixed
    len := maxVaddr - minVaddr
    contentSize := filesz
    zeroSize := phdr.pMemsz - phdr.pFilesz
    mapInfo := [{ start := 0, filesz, offset }]
    needCopy := false
    fromRelocatable := false }

end ElfPhdr

/-- `ProgramSegments`; its segments are created by `create_segments`. -/
structure ProgramSegments (w : Nat) where
  phdrs : List (ElfPhdr w)
  isDylib : Bool
  useFile : Bool

namespace ProgramSegments

def createSpace (M : Mmap w K) (ps : ProgramSegments w) : Load w K O (ElfSegments w) := do
  let layout := parseSegments ps.phdrs ps.isDylib
  Load.record (.reserve layout.1 layout.2.1)
  let ptr ← Load.onOs (M.mmapReserve layout.1 layout.2.1 ps.useFile)
  return { memory := ptr, offset := layout.2.2, len := layout.2.1 }

/-- The space is where the reservation was placed. -/
theorem createSpace_ok_iff {M : Mmap w K} {ps : ProgramSegments w} {s s' : LoadState w K O}
    {space : ElfSegments w} :
    ps.createSpace M s = .ok space s' ↔
      ∃ p os, M.mmapReserve (parseSegments ps.phdrs ps.isDylib).1
          (parseSegments ps.phdrs ps.isDylib).2.1 ps.useFile s.os = .ok p os ∧
        space = { memory := p, offset := (parseSegments ps.phdrs ps.isDylib).2.2,
                  len := (parseSegments ps.phdrs ps.isDylib).2.1 } ∧
        s' = { s with
          os, calls := s.calls ++ [.reserve (parseSegments ps.phdrs ps.isDylib).1
            (parseSegments ps.phdrs ps.isDylib).2.1] } := by
  simp only [createSpace, Exec.bind_ok_iff, Load.record, Exec.modify_apply, Load.onOs_ok_iff,
    Exec.pure_apply, EStateM.Result.ok.injEq]
  constructor
  · rintro ⟨-, _, ⟨-, rfl⟩, p, _, ⟨os, hos, rfl⟩, rfl, rfl⟩
    exact ⟨p, os, hos, rfl, rfl⟩
  · rintro ⟨p, os, hos, rfl, rfl⟩
    exact ⟨(), _, ⟨trivial, rfl⟩, p, _, ⟨os, hos, rfl⟩, rfl, rfl⟩

def loads (ps : ProgramSegments w) : List (ElfPhdr w) :=
  ps.phdrs.filter fun phdr => phdr.pType = ptLoad

def createSegments (ps : ProgramSegments w) : Load w K O (List (ElfSegment w)) :=
  return ps.loads.map ElfPhdr.createSegment

def loadSegments (M : Mmap w K) (R : ElfReader w O) (ps : ProgramSegments w) :
    Load w K O (ElfSegments w × List (ElfSegment w)) :=
  ElfLoader.loadSegments M R (ps.createSpace M) ps.createSegments

end ProgramSegments

end ElfLoader
