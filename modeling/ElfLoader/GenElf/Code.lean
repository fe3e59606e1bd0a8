import ElfLoader.GenElf.Common
import ElfLoader.Library.ByteMemory
import ElfLoader.Library.Splice

/-! # The machine code the generator emits (`arch/*.rs`)

Code is generated with placeholders and patched when the addresses are known. A
patch is a group of writes at distances from the start of the code it patches.
Differences of addresses wrap.
-/

namespace ElfLoader.GenElf

open ByteMemory Splice

namespace X86_64

def generatePlt0Code : List UInt8 :=
  resize ([0xff, 0x35] ++ [0, 0, 0, 0] ++ [0xff, 0x25] ++ [0, 0, 0, 0]) 16 0x90

def patchPlt0 (pltData : List UInt8) (plt0Off : Nat) (plt0Vaddr gotPltVaddr : BitVec 64) :
    Option (List UInt8) :=
  let off1 := (gotPltVaddr + 8 - (plt0Vaddr + 6)).setWidth 32
  let off2 := (gotPltVaddr + 16 - (plt0Vaddr + 12)).setWidth 32
  spliceAll pltData plt0Off [(2, leBytes off1), (8, leBytes off2)]

def generatePltEntryCode (relocIdx : BitVec 32) (pltEntryOffset : BitVec 64) : List UInt8 :=
  let plt0Offset := -(pltEntryOffset.setWidth 32 + 16)
  resize ([0xff, 0x25] ++ [0, 0, 0, 0] ++ [0x68] ++ leBytes relocIdx ++ [0xe9] ++
    leBytes plt0Offset) 16 0x90

def patchPltEntry (pltData : List UInt8) (pltEntryOff : Nat)
    (pltEntryVaddr targetGotVaddr : BitVec 64) : Option (List UInt8) :=
  let off := (targetGotVaddr - (pltEntryVaddr + 6)).setWidth 32
  spliceAll pltData pltEntryOff [(2, leBytes off)]

def generateHelperCode : List UInt8 := [0xe9, 0, 0, 0, 0, 0x90, 0x90, 0x90]

def patchHelper (textData : List UInt8) (helperTextOff : Nat)
    (helperVaddr targetPltVaddr : BitVec 64) : Option (List UInt8) :=
  let relOff := (targetPltVaddr - (helperVaddr + 5)).setWidth 32
  spliceAll textData helperTextOff [(0, [0xe9]), (1, leBytes relOff)]

def getIfuncResolverCode : List UInt8 :=
  [0x48, 0x8d, 0x05] ++ List.replicate 4 0x90 ++ [0xc3] ++ List.replicate 8 0x90

def patchIfuncResolver (textData : List UInt8) (offset : Nat)
    (resolverVaddr targetVaddr : BitVec 64) : Option (List UInt8) :=
  let relOff := (targetVaddr - (resolverVaddr + 7)).setWidth 32
  spliceAll textData offset [(3, leBytes relOff)]

end X86_64

namespace X86

def generatePlt0Code : List UInt8 :=
  resize ([0xff, 0xb3, 0x04, 0, 0, 0] ++ [0xff, 0xa3, 0x08, 0, 0, 0]) 16 0x90

def generatePltEntryCode (relocIdx : BitVec 32) (pltEntryOffset : BitVec 64) : List UInt8 :=
  let relocOffset := relocIdx * 8
  let plt0Offset := -(pltEntryOffset.setWidth 32 + 16)
  resize ([0xff, 0xa3, 0, 0, 0, 0] ++ [0x68] ++ leBytes relocOffset ++ [0xe9] ++
    leBytes plt0Offset) 16 0x90

def patchPltEntry (pltData : List UInt8) (pltEntryOff : Nat)
    (targetGotVaddr gotVaddr : BitVec 64) : Option (List UInt8) :=
  let offset := (targetGotVaddr - gotVaddr).setWidth 32
  spliceAll pltData pltEntryOff [(2, leBytes offset)]

def generateHelperCode : List UInt8 :=
  [0xe8, 0, 0, 0, 0, 0x5b, 0x81, 0xc3] ++ List.replicate 4 0x90 ++ [0xe9] ++
    List.replicate 19 0x90

def patchHelper (textData : List UInt8) (helperTextOff : Nat)
    (helperVaddr targetPltVaddr gotVaddr : BitVec 64) : Option (List UInt8) :=
  let gotOff := (gotVaddr - (helperVaddr + 5)).setWidth 32
  let relOff := (targetPltVaddr - (helperVaddr + 17)).setWidth 32
  spliceAll textData helperTextOff [(8, leBytes gotOff), (13, leBytes relOff)]

def getIfuncResolverCode : List UInt8 :=
  [0xe8, 0, 0, 0, 0, 0x58, 0x05] ++ List.replicate 4 0x90 ++ [0xc3] ++ List.replicate 4 0x90

def patchIfuncResolver (textData : List UInt8) (offset : Nat)
    (resolverVaddr targetVaddr : BitVec 64) : Option (List UInt8) :=
  let imm32 := (targetVaddr - (resolverVaddr + 5)).setWidth 32
  spliceAll textData offset [(7, leBytes imm32)]

end X86

namespace Aarch64

def encodeAdrp (rd : BitVec 32) (pc target : BitVec 64) : BitVec 32 :=
  let offset := (target >>> 12 - pc >>> 12).setWidth 32
  let immlo := offset &&& 3
  let immhi := offset >>> 2 &&& 0x7ffff
  0x90000000 ||| immlo <<< 29 ||| immhi <<< 5 ||| rd

def encodeLdrImm12 (rt rn imm : BitVec 32) : BitVec 32 :=
  let imm12 := imm >>> 3
  0xf9400000 ||| imm12 <<< 10 ||| rn <<< 5 ||| rt

def encodeAddImm12 (rd rn imm : BitVec 32) : BitVec 32 :=
  0x91000000 ||| imm <<< 10 ||| rn <<< 5 ||| rd

def generatePlt0Code : List UInt8 :=
  [0xf0, 0x7b, 0xbf, 0xa9] ++ List.replicate 12 0 ++ [0x20, 0x02, 0x1f, 0xd6] ++
    [0x1f, 0x20, 0x03, 0xd5] ++ [0x1f, 0x20, 0x03, 0xd5] ++ [0x1f, 0x20, 0x03, 0xd5]

def patchPlt0 (pltData : List UInt8) (plt0Off : Nat) (plt0Vaddr gotPltVaddr : BitVec 64) :
    Option (List UInt8) :=
  let gotResolverOffset := (gotPltVaddr &&& 0xfff).setWidth 32 + 16
  let adrp := encodeAdrp 16 (plt0Vaddr + 4) gotPltVaddr
  let ldrX17 := encodeLdrImm12 17 16 gotResolverOffset
  let addX16 := encodeAddImm12 16 16 gotResolverOffset
  spliceAll pltData plt0Off [(4, leBytes adrp), (8, leBytes ldrX17), (12, leBytes addX16)]

def generatePltEntryCode : List UInt8 :=
  List.replicate 12 0 ++ [0x20, 0x02, 0x1f, 0xd6]

def patchPltEntry (pltData : List UInt8) (pltEntryOff : Nat)
    (pltEntryVaddr targetGotVaddr : BitVec 64) : Option (List UInt8) :=
  let targetPageOffset := (targetGotVaddr &&& 0xfff).setWidth 32
  let adrp := encodeAdrp 16 pltEntryVaddr targetGotVaddr
  let ldr := encodeLdrImm12 17 16 targetPageOffset
  let add := encodeAddImm12 16 16 targetPageOffset
  spliceAll pltData pltEntryOff [(0, leBytes adrp), (4, leBytes ldr), (8, leBytes add)]

def generateHelperCode : List UInt8 := List.replicate 8 0

def patchHelper (textData : List UInt8) (helperTextOff : Nat)
    (helperVaddr targetPltVaddr : BitVec 64) : Option (List UInt8) :=
  let off := (targetPltVaddr - helperVaddr).sdiv 4
  let insn := 0x14000000 ||| (off &&& 0x03ffffff).setWidth 32
  spliceAll textData helperTextOff [(0, leBytes insn)]

def getIfuncResolverCode : List UInt8 :=
  [0x00, 0x00, 0x00, 0x90] ++ [0x00, 0x00, 0x00, 0x91] ++ [0xc0, 0x03, 0x5f, 0xd6] ++
    List.replicate 4 0

def patchIfuncResolver (textData : List UInt8) (offset : Nat)
    (resolverVaddr targetVaddr : BitVec 64) : Option (List UInt8) :=
  let adrp := encodeAdrp 0 resolverVaddr targetVaddr
  let add := encodeAddImm12 0 0 ((targetVaddr &&& 0xfff).setWidth 32)
  spliceAll textData offset [(0, leBytes adrp), (4, leBytes add)]

end Aarch64

namespace Arm

def generatePlt0Code : List UInt8 :=
  [0x04, 0xe0, 0x2d, 0xe5] ++ [0x04, 0xe0, 0x9f, 0xe5] ++ [0x0e, 0xe0, 0x8f, 0xe0] ++
    [0x08, 0xf0, 0xbe, 0xe5] ++ List.replicate 4 0

def patchPlt0 (pltData : List UInt8) (plt0Off : Nat) (plt0Vaddr gotPltVaddr : BitVec 64) :
    Option (List UInt8) :=
  let offset := (gotPltVaddr - (plt0Vaddr + 16)).setWidth 32
  spliceAll pltData plt0Off [(16, leBytes offset)]

def generatePltEntryCode : List UInt8 :=
  [0x00, 0xc0, 0x8f, 0xe2] ++ [0x00, 0xc0, 0x8c, 0xe2] ++ [0x00, 0xf0, 0xbc, 0xe5]

/-- The rotations that `encode_arm_imm` has left to try, from `r` on. -/
def encodeArmImmLoop : Nat → BitVec 32 → BitVec 32 → Option (BitVec 32)
  | 0, _, _ => none
  | left + 1, r, n =>
      if n ≤ 0xff then some (n ||| r <<< 8)
      else encodeArmImmLoop left (r + 1) (n.rotateLeft 2)

/-- A number as the immediate of a data-processing instruction: eight bits and a
rotation. -/
def encodeArmImm (n : BitVec 32) : Option (BitVec 32) :=
  if n = 0 then some 0 else encodeArmImmLoop 16 0 n

def splitOffset (residual : BitVec 32) : Option (BitVec 32 × BitVec 32) :=
  match encodeArmImm residual with
  | some enc => some (0, enc)
  | none => do
      let highPart := residual &&& 0xfff00000
      let midPart := residual - highPart
      let encH ← encodeArmImm highPart
      let encM ← encodeArmImm midPart
      return (encH, encM)

def patchPltEntry (pltData : List UInt8) (pltEntryOff : Nat)
    (pltEntryVaddr targetGotVaddr : BitVec 64) : Option (List UInt8) := do
  let offset : BitVec 32 := (targetGotVaddr - (pltEntryVaddr + 8)).setWidth 32
  let low12 := offset &&& 0xfff
  let (immHigh, immMid) ← splitOffset (offset - low12)
  spliceAll pltData pltEntryOff
    [(0, leBytes (0xe28fc000 ||| immHigh)), (4, leBytes (0xe28cc000 ||| immMid)),
      (8, leBytes (0xe5bcf000 ||| low12))]

def generateHelperCode : List UInt8 := [0x00, 0x00, 0x00, 0xea]

def patchHelper (textData : List UInt8) (helperTextOff : Nat)
    (helperVaddr targetPltVaddr : BitVec 64) : Option (List UInt8) :=
  let off := (targetPltVaddr - (helperVaddr + 8)).sdiv 4
  let insn := 0xea000000 ||| (off &&& 0x00ffffff).setWidth 32
  spliceAll textData helperTextOff [(0, leBytes insn)]

def getIfuncResolverCode : List UInt8 :=
  [0x04, 0x00, 0x9f, 0xe5] ++ [0x00, 0x00, 0x8f, 0xe0] ++ [0x1e, 0xff, 0x2f, 0xe1] ++
    List.replicate 4 0

def patchIfuncResolver (textData : List UInt8) (offset : Nat)
    (resolverVaddr targetVaddr : BitVec 64) : Option (List UInt8) :=
  let off := (targetVaddr - (resolverVaddr + 12)).setWidth 32
  spliceAll textData offset [(12, leBytes off)]

end Arm

/-! ## RISC-V

Both word sizes have their own copy of these encoders. -/

namespace Riscv

def splitAddr (pc target : BitVec 64) : BitVec 32 × BitVec 32 :=
  let offset := target - pc
  let hi := (offset + 0x800).setWidth 32 &&& 0xfffff000
  let lo := (offset.setWidth 32 - hi) &&& 0xfff
  (hi, lo)

def encodeUtype (op rd imm : BitVec 32) : BitVec 32 :=
  op ||| rd <<< 7 ||| (imm &&& 0xfffff000)

def encodeItype (op rd rs1 imm : BitVec 32) : BitVec 32 :=
  op ||| rd <<< 7 ||| rs1 <<< 15 ||| (imm &&& 0xfff) <<< 20

def encodeRtype (op rd rs1 rs2 funct3 funct7 : BitVec 32) : BitVec 32 :=
  op ||| rd <<< 7 ||| funct3 <<< 12 ||| rs1 <<< 15 ||| rs2 <<< 20 ||| funct7 <<< 25

def encodeJtype (op rd imm : BitVec 32) : BitVec 32 :=
  let imm20 := imm >>> 20 &&& 1
  let imm10_1 := imm >>> 1 &&& 0x3ff
  let imm11 := imm >>> 11 &&& 1
  let imm19_12 := imm >>> 12 &&& 0xff
  op ||| rd <<< 7 ||| imm19_12 <<< 12 ||| imm11 <<< 20 ||| imm10_1 <<< 21 ||| imm20 <<< 31

def regT0 : BitVec 32 := 5
def regT1 : BitVec 32 := 6
def regT2 : BitVec 32 := 7
def regT3 : BitVec 32 := 28

def generateHelperCode : List UInt8 :=
  leBytes (encodeUtype 0x17 regT0 0) ++ leBytes (encodeItype 0x67 0 regT0 0)

def patchHelper (textData : List UInt8) (helperTextOff : Nat)
    (helperVaddr targetPltVaddr : BitVec 64) : Option (List UInt8) :=
  let (hi, lo) := splitAddr helperVaddr targetPltVaddr
  spliceAll textData helperTextOff
    [(0, leBytes (encodeUtype 0x17 regT0 hi)), (4, leBytes (encodeItype 0x67 0 regT0 lo))]

end Riscv

namespace Riscv64

open Riscv

def generatePlt0Code : List UInt8 :=
  leBytes (encodeUtype 0x17 regT2 0) ++
    leBytes (encodeRtype 0x33 regT1 regT1 regT3 0 0x20) ++
    leBytes (encodeItype 0x3003 regT3 regT2 0) ++
    leBytes (encodeItype 0x13 regT1 regT1 (-44)) ++
    leBytes (encodeItype 0x13 regT0 regT2 0) ++
    leBytes (0x00135313#32) ++
    leBytes (encodeItype 0x3003 regT0 regT0 8) ++
    leBytes (encodeItype 0x67 0 regT3 0)

def patchPlt0 (pltData : List UInt8) (plt0Off : Nat) (plt0Vaddr gotPltVaddr : BitVec 64) :
    Option (List UInt8) :=
  let (hi, lo) := splitAddr plt0Vaddr gotPltVaddr
  let auipc := encodeUtype 0x17 regT2 hi
  let ldResolver := encodeItype 0x3003 regT3 regT2 lo
  let addiGot := encodeItype 0x13 regT0 regT2 lo
  spliceAll pltData plt0Off [(0, leBytes auipc), (8, leBytes ldResolver), (16, leBytes addiGot)]

def generatePltEntryCode : List UInt8 :=
  List.replicate 8 0 ++ leBytes (encodeItype 0x67 regT1 regT3 0) ++ leBytes (0x00000013#32)

def patchPltEntry (pltData : List UInt8) (pltEntryOff : Nat)
    (pltEntryVaddr targetGotVaddr : BitVec 64) : Option (List UInt8) :=
  let (hi, lo) := splitAddr pltEntryVaddr targetGotVaddr
  let auipc := encodeUtype 0x17 regT3 hi
  let ld := encodeItype 0x3003 regT3 regT3 lo
  spliceAll pltData pltEntryOff [(0, leBytes auipc), (4, leBytes ld)]

def getIfuncResolverCode : List UInt8 :=
  [0x17, 0x05, 0x00, 0x00] ++ [0x83, 0x32, 0x05, 0x01] ++ [0x33, 0x05, 0x55, 0x00] ++
    [0x67, 0x80, 0x00, 0x00] ++ List.replicate 8 0

def patchIfuncResolver (textData : List UInt8) (offset : Nat)
    (resolverVaddr targetVaddr : BitVec 64) : Option (List UInt8) :=
  let relOff := targetVaddr - resolverVaddr
  spliceAll textData offset [(16, leBytes relOff)]

end Riscv64

namespace Riscv32

open Riscv

def generatePlt0Code : List UInt8 := List.replicate 32 0

def patchPlt0 (pltData : List UInt8) (plt0Off : Nat) (plt0Vaddr gotPltVaddr : BitVec 64) :
    Option (List UInt8) :=
  let (hi, lo1) := splitAddr plt0Vaddr (gotPltVaddr + 4)
  let (_, lo2) := splitAddr plt0Vaddr (gotPltVaddr + 8)
  let auipc := encodeUtype 0x17 7 hi
  let lw1 := encodeItype 0x2003 5 7 lo1
  let lw2 := encodeItype 0x2003 7 7 lo2
  let jr := encodeItype 0x67 0 7 0
  spliceAll pltData plt0Off
    [(0, leBytes auipc), (4, leBytes lw1), (8, leBytes lw2), (12, leBytes jr)]

def generatePltEntryCode (relocIdx : BitVec 32) (pltEntryOffset : BitVec 64) : List UInt8 :=
  let plt0Off := -(pltEntryOffset.setWidth 32 + 20)
  let j := encodeJtype 0x6f 0 plt0Off
  List.replicate 12 0 ++ [0x13, 0x00, 0x00, 0x00] ++ leBytes (encodeItype 0x13 6 0 relocIdx) ++
    leBytes j ++ List.replicate 8 0

def patchPltEntry (pltData : List UInt8) (pltEntryOff : Nat)
    (pltEntryVaddr targetGotVaddr : BitVec 64) : Option (List UInt8) :=
  let (hi, lo) := splitAddr pltEntryVaddr targetGotVaddr
  let auipc := encodeUtype 0x17 7 hi
  let lw := encodeItype 0x2003 7 7 lo
  let jr := encodeItype 0x67 0 7 0
  spliceAll pltData pltEntryOff [(0, leBytes auipc), (4, leBytes lw), (8, leBytes jr)]

def getIfuncResolverCode : List UInt8 :=
  [0x17, 0x05, 0x00, 0x00] ++ [0x83, 0x22, 0x05, 0x01] ++ [0x33, 0x05, 0x55, 0x00] ++
    [0x67, 0x80, 0x00, 0x00] ++ List.replicate 4 0

def patchIfuncResolver (textData : List UInt8) (offset : Nat)
    (resolverVaddr targetVaddr : BitVec 64) : Option (List UInt8) :=
  let relOff := (targetVaddr - resolverVaddr).setWidth 32
  spliceAll textData offset [(16, leBytes relOff)]

end Riscv32

namespace Loongarch64

def encodeImm26 (imm : BitVec 32) : BitVec 32 :=
  (imm &&& 0xffff) <<< 10 ||| (imm >>> 16 &&& 0x3ff)

def pcaddi (rd : BitVec 32) (off : BitVec 64) : BitVec 32 :=
  let imm20 := (off.sshiftRight 2).setWidth 32
  0x18000000 ||| rd ||| (imm20 &&& 0xfffff) <<< 5

def generatePlt0Code : List UInt8 := List.replicate 32 0

def patchPlt0 (pltData : List UInt8) (plt0Off : Nat) (plt0Vaddr gotPltVaddr : BitVec 64) :
    Option (List UInt8) :=
  let ldLinkmap : BitVec 32 := 0x28c00000 ||| 12 ||| 14 <<< 5 ||| 8 <<< 10
  let ldResolver : BitVec 32 := 0x28c00000 ||| 14 ||| 14 <<< 5 ||| 0 <<< 10
  let jr : BitVec 32 := 0x4c000000 ||| 0 ||| 14 <<< 5 ||| 0 <<< 10
  spliceAll pltData plt0Off
    [(0, leBytes (pcaddi 14 (gotPltVaddr - plt0Vaddr))), (4, leBytes ldLinkmap),
      (8, leBytes ldResolver), (12, leBytes jr)]

def generatePltEntryCode (relocIdx : BitVec 32) (pltEntryOffset : BitVec 64) : List UInt8 :=
  let nop : BitVec 32 := 0x03400000
  let relocVal := relocIdx * 8
  let li := 0x02800000 ||| 13 ||| (relocVal &&& 0xfff) <<< 10
  let plt0Off := -(pltEntryOffset.setWidth 32 + 20)
  let bImm := plt0Off.sshiftRight 2
  let b := 0x50000000 ||| encodeImm26 bImm
  List.replicate 12 0 ++ leBytes nop ++ leBytes li ++ leBytes b ++ List.replicate 8 0

def patchPltEntry (pltData : List UInt8) (pltEntryOff : Nat)
    (pltEntryVaddr targetGotVaddr : BitVec 64) : Option (List UInt8) :=
  let ld : BitVec 32 := 0x28c00000 ||| 13 ||| 14 <<< 5 ||| 0 <<< 10
  let jirl : BitVec 32 := 0x4c000000 ||| 0 ||| 13 <<< 5 ||| 0 <<< 10
  spliceAll pltData pltEntryOff
    [(0, leBytes (pcaddi 14 (targetGotVaddr - pltEntryVaddr))), (4, leBytes ld),
      (8, leBytes jirl)]

def generateHelperCode : List UInt8 := [0x00, 0x00, 0x00, 0x50, 0x00, 0x00, 0x00, 0x00]

def patchHelper (textData : List UInt8) (helperTextOff : Nat)
    (helperVaddr targetPltVaddr : BitVec 64) : Option (List UInt8) :=
  let off := (targetPltVaddr - helperVaddr).sdiv 4
  let insn := 0x50000000 ||| encodeImm26 (off.setWidth 32)
  spliceAll textData helperTextOff [(0, leBytes insn)]

def getIfuncResolverCode : List UInt8 :=
  [0x04, 0x00, 0x00, 0x1a] ++ [0x84, 0x00, 0xc0, 0x02] ++ [0x20, 0x00, 0x00, 0x4c] ++
    [0x00, 0x00, 0x40, 0x03]

def patchIfuncResolver (textData : List UInt8) (offset : Nat)
    (resolverVaddr targetVaddr : BitVec 64) : Option (List UInt8) :=
  let hi := (targetVaddr - (resolverVaddr &&& ~~~0xfff#64) + 0x800).sshiftRight 12
  let lo := targetVaddr &&& 0xfff
  let pcalau12i := 0x1a000000 ||| 4 ||| (hi.setWidth 32 &&& 0xfffff) <<< 5
  let addi := 0x02c00000 ||| 4 ||| 4 <<< 5 ||| (lo.setWidth 32 &&& 0xfff) <<< 10
  spliceAll textData offset [(0, leBytes pcalau12i), (4, leBytes addi)]

end Loongarch64

/-! ## One function for all architectures (`arch/mod.rs`) -/

def generateHelperCode : Arch → List UInt8
  | .x86_64 => X86_64.generateHelperCode
  | .x86 => X86.generateHelperCode
  | .aarch64 => Aarch64.generateHelperCode
  | .arm => Arm.generateHelperCode
  | .riscv64 | .riscv32 => Riscv.generateHelperCode
  | .loongarch64 => Loongarch64.generateHelperCode

def patchHelper (arch : Arch) (textData : List UInt8) (helperTextOff : Nat)
    (helperVaddr targetPltVaddr gotVaddr : BitVec 64) : Option (List UInt8) :=
  match arch with
  | .x86_64 => X86_64.patchHelper textData helperTextOff helperVaddr targetPltVaddr
  | .x86 => X86.patchHelper textData helperTextOff helperVaddr targetPltVaddr gotVaddr
  | .aarch64 => Aarch64.patchHelper textData helperTextOff helperVaddr targetPltVaddr
  | .arm => Arm.patchHelper textData helperTextOff helperVaddr targetPltVaddr
  | .riscv64 | .riscv32 => Riscv.patchHelper textData helperTextOff helperVaddr targetPltVaddr
  | .loongarch64 => Loongarch64.patchHelper textData helperTextOff helperVaddr targetPltVaddr

def getIfuncResolverCode : Arch → List UInt8
  | .x86_64 => X86_64.getIfuncResolverCode
  | .x86 => X86.getIfuncResolverCode
  | .aarch64 => Aarch64.getIfuncResolverCode
  | .arm => Arm.getIfuncResolverCode
  | .riscv64 => Riscv64.getIfuncResolverCode
  | .riscv32 => Riscv32.getIfuncResolverCode
  | .loongarch64 => Loongarch64.getIfuncResolverCode

def patchIfuncResolver (arch : Arch) (textData : List UInt8) (offset : Nat)
    (resolverVaddr targetVaddr : BitVec 64) : Option (List UInt8) :=
  match arch with
  | .x86_64 => X86_64.patchIfuncResolver textData offset resolverVaddr targetVaddr
  | .x86 => X86.patchIfuncResolver textData offset resolverVaddr targetVaddr
  | .aarch64 => Aarch64.patchIfuncResolver textData offset resolverVaddr targetVaddr
  | .arm => Arm.patchIfuncResolver textData offset resolverVaddr targetVaddr
  | .riscv64 => Riscv64.patchIfuncResolver textData offset resolverVaddr targetVaddr
  | .riscv32 => Riscv32.patchIfuncResolver textData offset resolverVaddr targetVaddr
  | .loongarch64 => Loongarch64.patchIfuncResolver textData offset resolverVaddr targetVaddr

def generatePlt0Code : Arch → List UInt8
  | .x86_64 => X86_64.generatePlt0Code
  | .x86 => X86.generatePlt0Code
  | .aarch64 => Aarch64.generatePlt0Code
  | .arm => Arm.generatePlt0Code
  | .riscv64 => Riscv64.generatePlt0Code
  | .riscv32 => Riscv32.generatePlt0Code
  | .loongarch64 => Loongarch64.generatePlt0Code

def generatePltEntryCode (arch : Arch) (relocIdx : BitVec 32) (pltEntryOffset : BitVec 64) :
    List UInt8 :=
  match arch with
  | .x86_64 => X86_64.generatePltEntryCode relocIdx pltEntryOffset
  | .x86 => X86.generatePltEntryCode relocIdx pltEntryOffset
  | .aarch64 => Aarch64.generatePltEntryCode
  | .arm => Arm.generatePltEntryCode
  | .riscv64 => Riscv64.generatePltEntryCode
  | .riscv32 => Riscv32.generatePltEntryCode relocIdx pltEntryOffset
  | .loongarch64 => Loongarch64.generatePltEntryCode relocIdx pltEntryOffset

def patchPlt0 (arch : Arch) (pltData : List UInt8) (plt0Off : Nat)
    (plt0Vaddr gotPltVaddr : BitVec 64) : Option (List UInt8) :=
  match arch with
  | .x86_64 => X86_64.patchPlt0 pltData plt0Off plt0Vaddr gotPltVaddr
  | .x86 => some pltData
  | .aarch64 => Aarch64.patchPlt0 pltData plt0Off plt0Vaddr gotPltVaddr
  | .arm => Arm.patchPlt0 pltData plt0Off plt0Vaddr gotPltVaddr
  | .riscv64 => Riscv64.patchPlt0 pltData plt0Off plt0Vaddr gotPltVaddr
  | .riscv32 => Riscv32.patchPlt0 pltData plt0Off plt0Vaddr gotPltVaddr
  | .loongarch64 => Loongarch64.patchPlt0 pltData plt0Off plt0Vaddr gotPltVaddr

def patchPltEntry (arch : Arch) (pltData : List UInt8) (pltEntryOff : Nat)
    (pltEntryVaddr targetGotVaddr gotVaddr : BitVec 64) : Option (List UInt8) :=
  match arch with
  | .x86_64 => X86_64.patchPltEntry pltData pltEntryOff pltEntryVaddr targetGotVaddr
  | .x86 => X86.patchPltEntry pltData pltEntryOff targetGotVaddr gotVaddr
  | .aarch64 => Aarch64.patchPltEntry pltData pltEntryOff pltEntryVaddr targetGotVaddr
  | .arm => Arm.patchPltEntry pltData pltEntryOff pltEntryVaddr targetGotVaddr
  | .riscv64 => Riscv64.patchPltEntry pltData pltEntryOff pltEntryVaddr targetGotVaddr
  | .riscv32 => Riscv32.patchPltEntry pltData pltEntryOff pltEntryVaddr targetGotVaddr
  | .loongarch64 => Loongarch64.patchPltEntry pltData pltEntryOff pltEntryVaddr targetGotVaddr

/-- What a slot of `.got.plt` holds until it is bound. -/
def getGotPltInitValue (arch : Arch) (pltVaddr pltEntryOff : Nat) : Nat :=
  match arch with
  | .x86_64 | .x86 => pltVaddr + pltEntryOff + 6
  | .aarch64 | .riscv64 | .arm => pltVaddr
  | .riscv32 | .loongarch64 => pltVaddr + pltEntryOff + 16

def getPlt0Size : Arch → Nat
  | .x86_64 | .x86 => 16
  | .arm => 20
  | .aarch64 | .riscv64 | .riscv32 | .loongarch64 => 32

def getPltEntrySize : Arch → Nat
  | .arm => 12
  | .x86_64 | .x86 | .aarch64 | .riscv64 => 16
  | .riscv32 | .loongarch64 => 32

/-! ## Sizes and frames

Code has the size the tables state, and a patch stays inside the code it is for.
-/

theorem generatePlt0Code_length (arch : Arch) :
    (generatePlt0Code arch).length = getPlt0Size arch := by
  cases arch <;> rfl

theorem generatePltEntryCode_length (arch : Arch) (relocIdx : BitVec 32)
    (pltEntryOffset : BitVec 64) :
    (generatePltEntryCode arch relocIdx pltEntryOffset).length = getPltEntrySize arch := by
  cases arch <;> rfl

section Frame

variable {data data' : List UInt8} {off : Nat} {a b c : BitVec 64}

theorem patchHelper_patched {arch : Arch} (h : patchHelper arch data off a b c = some data') :
    Patched off (off + (generateHelperCode arch).length) data data' := by
  cases arch <;> exact Patched.of_spliceAll h (by simp [Inside, generateHelperCode,
    X86_64.generateHelperCode, X86.generateHelperCode, Aarch64.generateHelperCode,
    Arm.generateHelperCode, Riscv.generateHelperCode, Loongarch64.generateHelperCode])

theorem patchIfuncResolver_patched {arch : Arch}
    (h : patchIfuncResolver arch data off a b = some data') :
    Patched off (off + (getIfuncResolverCode arch).length) data data' := by
  cases arch <;> exact Patched.of_spliceAll h (by simp [Inside, getIfuncResolverCode,
    X86_64.getIfuncResolverCode, X86.getIfuncResolverCode, Aarch64.getIfuncResolverCode,
    Arm.getIfuncResolverCode, Riscv64.getIfuncResolverCode, Riscv32.getIfuncResolverCode,
    Loongarch64.getIfuncResolverCode])

theorem patchPlt0_patched {arch : Arch} (h : patchPlt0 arch data off a b = some data') :
    Patched off (off + getPlt0Size arch) data data' := by
  cases arch with
  | x86 =>
      cases h
      exact Patched.refl _ _ _
  | x86_64 | aarch64 | arm | riscv64 | riscv32 | loongarch64 =>
      exact Patched.of_spliceAll h (by simp [Inside, getPlt0Size])

theorem patchPltEntry_patched {arch : Arch} (h : patchPltEntry arch data off a b c = some data') :
    Patched off (off + getPltEntrySize arch) data data' := by
  cases arch with
  | arm =>
      obtain ⟨imms, -, hsplice⟩ := Option.bind_eq_some_iff.mp h
      exact Patched.of_spliceAll hsplice (by simp [Inside, getPltEntrySize])
  | x86_64 | x86 | aarch64 | riscv64 | riscv32 | loongarch64 =>
      exact Patched.of_spliceAll h (by simp [Inside, getPltEntrySize])

end Frame

/-- Patched words are found again where they were written. -/
theorem spliceAll_words {code : List UInt8} {off n : Nat} (hn : off + n ≤ code.length)
    (words : List (Nat × BitVec 32)) (hin : ∀ word ∈ words, word.1 + 4 ≤ n)
    (hapart : words.Pairwise fun a b => a.1 + 4 ≤ b.1 ∨ b.1 + 4 ≤ a.1) :
    ∃ code', spliceAll code off (words.map fun word => (word.1, leBytes word.2)) = some code' ∧
      ∀ word ∈ words, slice code' (off + word.1) 4 = leBytes word.2 := by
  have hinside : Inside n (words.map fun word => (word.1, leBytes word.2)) :=
    List.forall_mem_map.mpr hin
  obtain ⟨code', hcode⟩ := spliceAll_defined hinside hn
  refine ⟨code', hcode, fun word hword => ?_⟩
  exact slice_spliceAll hcode (List.pairwise_map.mpr hapart)
    (List.mem_map_of_mem (f := fun word => (word.1, leBytes word.2)) hword)

end ElfLoader.GenElf
