import ElfLoader.Elf.DynamicSection
import ElfLoader.Elf.Header
import ElfLoader.Relocation.Dynamic

/-! # From loaded segments to an image (`src/image/builder.rs`)

`ImageBuilder` collects what the program headers say, one header after another;
`build_dynamic` and `build_static` turn it into an image. The hook is code of
the user: it sees every header first and may stop the load.
-/

namespace ElfLoader

open ByteMemory

variable {w : Nat} {D : Type}

/-- `LoadHook::call`, for the name of the object, the header and the segments. -/
abbrev LoadHook (w : Nat) (D : Type) := Name → ElfPhdr w → ElfSegments w → D → Except Error D

def ELFRelro.new (phdr : ElfPhdr w) (base : BitVec w) : ELFRelro w where
  addr := base + phdr.pVaddr
  len := phdr.pMemsz

inductive ElfPhdrs (w : Nat) where
  | mmap (phdrs : Slice w)
  | vec (phdrs : List (ElfPhdr w))
deriving DecidableEq

structure ImageBuilder (w : Nat) (D : Type) where
  hook : LoadHook w D
  phdrMmap : Option (Slice w)
  name : Name
  ehdr : Ehdr w
  relro : Option (ELFRelro w)
  dynamicPtr : Option (BitVec w)
  userData : D
  segments : ElfSegments w
  interp : Option (BitVec w)

namespace ImageBuilder

def new (hook : LoadHook w D) (segments : ElfSegments w) (name : Name) (ehdr : Ehdr w)
    (userData : D) : ImageBuilder w D where
  hook
  phdrMmap := none
  name
  ehdr
  relro := none
  dynamicPtr := none
  userData
  segments
  interp := none

/-- The `match` of `parse_phdr` on the type of the header. -/
def storePhdr (b : ImageBuilder w D) (phdr : ElfPhdr w) : Except Halt (ImageBuilder w D) := do
  if phdr.pType = ptDynamic then
    return { b with dynamicPtr := some (← nonNull (b.segments.getPtr phdr.pPaddr)) }
  else if phdr.pType = ptGnuRelro then
    return { b with relro := some (ELFRelro.new phdr b.segments.base) }
  else if phdr.pType = ptPhdr then
    return { b with
      phdrMmap := some (b.segments.getSlice (phdrSize w) phdr.pVaddr phdr.pMemsz) }
  else if phdr.pType = ptInterp then
    return { b with interp := some (← nonNull (b.segments.getPtr phdr.pVaddr)) }
  else return b

def parsePhdr (b : ImageBuilder w D) (phdr : ElfPhdr w) : Except Halt (ImageBuilder w D) :=
  match b.hook b.name phdr b.segments b.userData with
  | .error e => .error (.err e)
  | .ok userData => storePhdr { b with userData } phdr

/-- The table in a loaded segment that covers it in the file. -/
def findPhdrs (b : ImageBuilder w D) (phdrs : List (ElfPhdr w)) : Option (Slice w) :=
  let phdrStart := b.ehdr.phdrRange.1
  let phdrEnd := b.ehdr.phdrRange.2
  (phdrs.filter fun phdr => phdr.pType = ptLoad).findSome? fun phdr =>
    let contains (x : BitVec w) : Bool :=
      phdr.pOffset ≤ x && x < phdr.pOffset + phdr.pFilesz
    if contains phdrStart && contains phdrEnd then
      some (b.segments.getSlice (phdrSize w) (phdr.pVaddr + phdrStart - phdr.pOffset)
        (BitVec.ofNat w (b.ehdr.ePhnum.toNat * phdrSize w)))
    else none

def createPhdrs (b : ImageBuilder w D) (phdrs : List (ElfPhdr w)) : ElfPhdrs w :=
  match b.phdrMmap.or (b.findPhdrs phdrs) with
  | some slice => .mmap slice
  | none => .vec phdrs

end ImageBuilder

/-! ## Images -/

/-- The bytes of a C string. -/
def cStr (m : Bytes w) : Nat → BitVec w → Except Halt Name
  | 0, _ => .error .fault
  | fuel + 1, ptr =>
      if m ptr = 0 then .ok []
      else (cStr m fuel (ptr + 1)).map (m ptr :: ·)

/-- `CStr::from_ptr(ptr).to_str().unwrap()`. -/
def interpStr (m : Bytes w) (ptr : BitVec w) : Except Halt Name := do
  let bytes ← cStr m (2 ^ w) ptr
  if (ByteArray.mk bytes.toArray).validateUTF8 then return bytes
  else .error (.panic "called `Result::unwrap()` on an `Err` value")

/-- The interpreter path, where there is one. -/
def readInterp (m : Bytes w) : Option (BitVec w) → Except Halt (Option Name)
  | none => .ok none
  | some ptr => (interpStr m ptr).map some

/-- `DynamicImage` in the state `Uninit`: its dynamic section is not parsed yet. -/
structure UninitImage (w : Nat) (D : Type) where
  entry : BitVec w
  interp : Option Name
  name : Name
  phdrs : ElfPhdrs w
  dynamicPtr : BitVec w
  segments : ElfSegments w
  relro : Option (ELFRelro w)
  userData : D

structure StaticImage (w : Nat) (D : Type) where
  entry : BitVec w
  name : Name
  userData : D
  segments : ElfSegments w

namespace ImageBuilder

def buildDynamic (b : ImageBuilder w D) (m : Bytes w) (phdrs : List (ElfPhdr w)) :
    Except Halt (UninitImage w D) := do
  let b ← phdrs.foldlM parsePhdr b
  let some dynamicPtr := b.dynamicPtr | .error (.panic "dynamic section not found")
  let interp ← readInterp m b.interp
  return {
    entry := b.ehdr.eEntry + if b.ehdr.isDylib then b.segments.base else 0
    interp
    name := b.name
    phdrs := b.createPhdrs phdrs
    dynamicPtr
    segments := b.segments
    relro := b.relro
    userData := b.userData }

def buildStatic (b : ImageBuilder w D) (phdrs : List (ElfPhdr w)) :
    Except Halt (StaticImage w D) := do
  let b ← phdrs.foldlM parsePhdr b
  return {
    entry := b.ehdr.eEntry
    name := b.name
    userData := b.userData
    segments := b.segments }

end ImageBuilder

end ElfLoader
