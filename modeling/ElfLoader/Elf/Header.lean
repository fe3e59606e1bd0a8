import ElfLoader.Segment.Program
import ElfLoader.Segment.Section

/-! # ELF headers (`src/elf/ehdr.rs`, `src/elf/defs.rs`)

Headers are read from the bytes of the file as the records of the C layout, in
the byte order of the little-endian targets. Both word sizes order the fields
of the file header and of a section header alike; in a program header the flags
stand in different places.
-/

namespace ElfLoader

open ByteMemory

variable {w : Nat} {O : Type}

/-- The number in the `len` bytes from `off` on. -/
def fieldNat (bytes : List UInt8) (off len : Nat) : Nat := leNat ((bytes.drop off).take len)

def field16 (bytes : List UInt8) (off : Nat) : UInt16 := UInt16.ofNat (fieldNat bytes off 2)

def field32 (bytes : List UInt8) (off : Nat) : UInt32 := UInt32.ofNat (fieldNat bytes off 4)

def fieldWord (bytes : List UInt8) (off : Nat) : BitVec w :=
  BitVec.ofNat w (fieldNat bytes off (w / 8))

structure Ehdr (w : Nat) where
  eIdent : List UInt8
  eType : UInt16
  eMachine : UInt16
  eVersion : UInt32
  eEntry : BitVec w
  ePhoff : BitVec w
  eShoff : BitVec w
  eFlags : UInt32
  eEhsize : UInt16
  ePhentsize : UInt16
  ePhnum : UInt16
  eShentsize : UInt16
  eShnum : UInt16
  eShstrndx : UInt16
deriving DecidableEq

/-- `EHDR_SIZE`. -/
def ehdrSize (w : Nat) : Nat := 40 + 3 * (w / 8)

def Ehdr.ofBytes (bytes : List UInt8) : Ehdr w where
  eIdent := bytes.take 16
  eType := field16 bytes 16
  eMachine := field16 bytes 18
  eVersion := field32 bytes 20
  eEntry := fieldWord bytes 24
  ePhoff := fieldWord bytes (24 + w / 8)
  eShoff := fieldWord bytes (24 + 2 * (w / 8))
  eFlags := field32 bytes (24 + 3 * (w / 8))
  eEhsize := field16 bytes (28 + 3 * (w / 8))
  ePhentsize := field16 bytes (30 + 3 * (w / 8))
  ePhnum := field16 bytes (32 + 3 * (w / 8))
  eShentsize := field16 bytes (34 + 3 * (w / 8))
  eShnum := field16 bytes (36 + 3 * (w / 8))
  eShstrndx := field16 bytes (38 + 3 * (w / 8))

/-- `size_of::<ElfPhdr>()`. -/
def phdrSize (w : Nat) : Nat := if w = 64 then 56 else 32

/-- Where `p_paddr` stands in a program header. -/
def paddrOff (w : Nat) : Nat := 3 * (w / 8)

def ElfPhdr.ofBytes (bytes : List UInt8) : ElfPhdr w where
  pType := field32 bytes 0
  pFlags := field32 bytes (if w = 64 then 4 else 24)
  pOffset := fieldWord bytes (w / 8)
  pVaddr := fieldWord bytes (2 * (w / 8))
  pPaddr := fieldWord bytes (paddrOff w)
  pFilesz := fieldWord bytes (4 * (w / 8))
  pMemsz := fieldWord bytes (5 * (w / 8))
  pAlign := fieldWord bytes ((if w = 64 then 6 else 7) * (w / 8))

/-- `size_of::<ElfShdr>()`. -/
def shdrSize (w : Nat) : Nat := 16 + 6 * (w / 8)

def ElfShdr.ofBytes (bytes : List UInt8) : ElfShdr w where
  shName := field32 bytes 0
  shType := field32 bytes 4
  shFlags := fieldWord bytes 8
  shAddr := fieldWord bytes (8 + w / 8)
  shOffset := fieldWord bytes (8 + 2 * (w / 8))
  shSize := fieldWord bytes (8 + 3 * (w / 8))
  shLink := field32 bytes (8 + 4 * (w / 8))
  shInfo := field32 bytes (12 + 4 * (w / 8))
  shAddralign := fieldWord bytes (16 + 4 * (w / 8))
  shEntsize := fieldWord bytes (16 + 5 * (w / 8))

/-- The records of `size` bytes that a buffer holds. -/
def records {R : Type} (ofBytes : List UInt8 → R) (size : Nat) (buf : List UInt8) (count : Nat) :
    List R :=
  (List.range count).map fun k => ofBytes (buf.drop (k * size))

def etRel : UInt16 := 1
def etExec : UInt16 := 2
def etDyn : UInt16 := 3

def ptDynamic : UInt32 := 2
def ptInterp : UInt32 := 3
def ptPhdr : UInt32 := 6
def ptGnuRelro : UInt32 := 0x6474e552

def elfmagic : List UInt8 := [0x7f, 0x45, 0x4c, 0x46]
def eiClass : Nat := 4
def eiVersion : Nat := 6
def evCurrent : UInt8 := 1

/-- `E_CLASS`: `ELFCLASS64` or `ELFCLASS32`. -/
def eClass (w : Nat) : UInt8 := if w = 64 then 2 else 1

namespace Ehdr

def isDylib (ehdr : Ehdr w) : Bool := ehdr.eType = etDyn

def isExecutable (ehdr : Ehdr w) : Bool := ehdr.eType = etExec || ehdr.eType = etDyn

/-- `ElfHeader::vaildate`, for a target of machine type `emArch`. -/
def vaildate (emArch : UInt16) (ehdr : Ehdr w) : Except Halt Unit :=
  if ehdr.eIdent.take 4 ≠ elfmagic then .error (.err (.parseEhdr "invalid ELF magic"))
  else if ehdr.eIdent[eiClass]? ≠ some (eClass w) then
    .error (.err (.parseEhdr "file class mismatch"))
  else if ehdr.eIdent[eiVersion]? ≠ some evCurrent then
    .error (.err (.parseEhdr "invalid ELF version"))
  else if ehdr.eMachine ≠ emArch then .error (.err (.parseEhdr "file arch mismatch"))
  else .ok ()

def phdrRange (ehdr : Ehdr w) : BitVec w × BitVec w :=
  let phdrsSize := BitVec.ofNat w (ehdr.ePhentsize.toNat * ehdr.ePhnum.toNat)
  (ehdr.ePhoff, ehdr.ePhoff + phdrsSize)

def shdrRange (ehdr : Ehdr w) : BitVec w × BitVec w :=
  let shdrsSize := BitVec.ofNat w (ehdr.eShentsize.toNat * ehdr.eShnum.toNat)
  (ehdr.eShoff, ehdr.eShoff + shdrsSize)

/-- `ElfHeader::new`. -/
def new (emArch : UInt16) (data : List UInt8) : Except Halt (Ehdr w) := do
  let ehdr := Ehdr.ofBytes data
  ehdr.vaildate emArch
  return ehdr

end Ehdr

/-! ## Reading headers (`ElfBuf` of `src/loader.rs`) -/

namespace ElfBuf

def prepareEhdr (emArch : UInt16) (R : ElfReader w O) : EStateM Halt O (Ehdr w) := do
  let buf ← R.read (ehdrSize w) 0
  Exec.lift (Ehdr.new emArch buf)

/-- The size is the difference of the two ends, so it survives a wrapped end. -/
def preparePhdrs (R : ElfReader w O) (ehdr : Ehdr w) : EStateM Halt O (List (ElfPhdr w)) := do
  let size := ehdr.phdrRange.2 - ehdr.phdrRange.1
  let buf ← R.read size.toNat ehdr.phdrRange.1
  return records ElfPhdr.ofBytes (phdrSize w) buf (size.toNat / phdrSize w)

def prepareShdrsMut (R : ElfReader w O) (ehdr : Ehdr w) : EStateM Halt O (List (ElfShdr w)) := do
  let size := ehdr.shdrRange.2 - ehdr.shdrRange.1
  let buf ← R.read size.toNat ehdr.shdrRange.1
  return records ElfShdr.ofBytes (shdrSize w) buf (size.toNat / shdrSize w)

end ElfBuf

end ElfLoader
