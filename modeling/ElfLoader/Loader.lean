import ElfLoader.Image.Builder

/-! # The loader (`src/loader.rs`, `src/image/mod.rs`, `src/image/kinds`)

The four entry points read the headers, load the segments and build an image.
An `unwrap` on a `Result` turns an error into a panic; where the source has a
`?`, the error is passed on.
-/

namespace ElfLoader

variable {w : Nat} {K O D α : Type}

/-- `Loader`, with the constants of the target it is compiled for. -/
structure Loader (w : Nat) (K D : Type) where
  arch : Arch w
  emArch : UInt16
  staticReloc : StaticReloc
  mmap : Mmap w K
  hook : LoadHook w D
  /-- `D::default()`. -/
  userData : D

/-- `.unwrap()` on a `Result`. -/
def unwrapResult (x : Load w K O α) : Load w K O α := fun s =>
  match x s with
  | .ok a s => .ok a s
  | .error (.err _) s => .error (.panic "called `Result::unwrap()` on an `Err` value") s
  | .error h s => .error h s

/-- `SegmentBuilder::mprotect`. -/
def ElfSegment.mprotectAll (M : Mmap w K) (segs : List (ElfSegment w)) : Load w K O Unit :=
  segs.forM (ElfSegment.mprotect M)

inductive RawExec (w : Nat) (D : Type) where
  | dynamic (image : UninitImage w D)
  | static (image : StaticImage w D)

namespace RawExec

def entry : RawExec w D → BitVec w
  | dynamic image => image.entry
  | static image => image.entry

/-- The base of the segments that the image owns. -/
def base : RawExec w D → BitVec w
  | dynamic image => image.segments.base
  | static image => image.segments.base

end RawExec

/-- What `load_object_impl` hands to `ObjectBuilder::new`. -/
structure LoadedSections (w : Nat) where
  shdrs : List (ElfShdr w)
  space : ElfSegments w
  segments : List (ElfSegment w)
  gotBase : BitVec w
  pltBase : BitVec w

inductive RawElf (w : Nat) (D : Type) where
  | dylib (image : UninitImage w D)
  | exec (image : RawExec w D)
  | object (parts : LoadedSections w)

def hasType (t : UInt32) (phdrs : List (ElfPhdr w)) : Bool := phdrs.any fun phdr => phdr.pType = t

namespace Loader

variable (L : Loader w K D) (R : ElfReader w O) (name : Name)

/-- The segments of an image, loaded and protected. -/
def loadProgram (ehdr : Ehdr w) (phdrs : List (ElfPhdr w)) : Load w K O (ElfSegments w) := do
  let s ← get
  let phdrSegments : ProgramSegments w :=
    { phdrs, isDylib := ehdr.isDylib, useFile := (R.asFd s.object).isSome }
  let loaded ← phdrSegments.loadSegments L.mmap R
  ElfSegment.mprotectAll L.mmap loaded.2
  return loaded.1

/-- The builder that `load_static_impl` and `load_dynamic_impl` start from. -/
def builder (ehdr : Ehdr w) (segments : ElfSegments w) : ImageBuilder w D :=
  ImageBuilder.new L.hook segments name ehdr L.userData

def loadStaticImpl (ehdr : Ehdr w) (phdrs : List (ElfPhdr w)) : Load w K O (StaticImage w D) := do
  let segments ← L.loadProgram R ehdr phdrs
  Exec.lift ((L.builder name ehdr segments).buildStatic phdrs)

def loadDynamicImpl (ehdr : Ehdr w) (phdrs : List (ElfPhdr w)) : Load w K O (UninitImage w D) := do
  let segments ← L.loadProgram R ehdr phdrs
  let s ← get
  Exec.lift ((L.builder name ehdr segments).buildDynamic s.os.mem phdrs)

/-- `load_object_impl`, up to the call of `ObjectBuilder::new`. -/
def loadObjectImpl (ehdr : Ehdr w) : Load w K O (LoadedSections w) := do
  let shdrs ← unwrapResult (Load.onObject (ElfBuf.prepareShdrsMut R ehdr))
  let created ← Load.onObject (SectionSegments.new L.staticReloc R shdrs)
  let loaded ← created.1.loadSegments L.mmap R
  return {
    shdrs := created.2
    space := loaded.1
    segments := loaded.2
    gotBase := created.1.gotBase
    pltBase := created.1.pltBase }

def readEhdr : Load w K O (Ehdr w) := Load.onObject (ElfBuf.prepareEhdr L.emArch R)

def readPhdr (ehdr : Ehdr w) : Load w K O (List (ElfPhdr w)) :=
  Load.onObject (ElfBuf.preparePhdrs R ehdr)

def loadDylib : Load w K O (UninitImage w D) := do
  let ehdr ← L.readEhdr R
  if ehdr.isDylib then
    let phdrs ← readPhdr R ehdr
    L.loadDynamicImpl R name ehdr phdrs
  else throw (.err (.parseEhdr "file type mismatch"))

def loadExec : Load w K O (RawExec w D) := do
  let ehdr ← L.readEhdr R
  if ehdr.isExecutable then
    let phdrs ← readPhdr R ehdr
    if hasType ptDynamic phdrs then
      return .dynamic (← L.loadDynamicImpl R name ehdr phdrs)
    else return .static (← L.loadStaticImpl R name ehdr phdrs)
  else throw (.err (.parseEhdr "file type mismatch"))

def loadObject : Load w K O (LoadedSections w) := do
  let ehdr ← unwrapResult (L.readEhdr R)
  L.loadObjectImpl R ehdr

/-- `load`. The kinds read the headers again. -/
def load : Load w K O (RawElf w D) := do
  let ehdr ← L.readEhdr R
  if ehdr.eType = etRel then return .object (← L.loadObject R)
  else if ehdr.eType = etExec then return .exec (← L.loadExec R name)
  else if ehdr.eType = etDyn then
    let phdrs ← readPhdr R ehdr
    let isPie := hasType ptInterp phdrs || !hasType ptDynamic phdrs
    if isPie then return .exec (← L.loadExec R name)
    else return .dylib (← L.loadDylib R name)
  else return .exec (← L.loadExec R name)

end Loader

end ElfLoader
