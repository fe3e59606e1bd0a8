import ElfLoader.Error
import Mathlib.Data.BitVec

/-! # What the generator is given (`common.rs`, the tables of `arch/mod.rs`)

The generator writes dynamic libraries for the tests of the loader. A panic of
its code (an `unwrap`, a `todo!`, an index, a subtraction or an addition that
leaves its type) is `none`.
-/

namespace ElfLoader.GenElf

/-- The bytes of a text of the source. -/
def ascii (s : String) : Name := s.toList.map fun c => UInt8.ofNat c.toNat

/-- The architectures the generator emits. -/
inductive Arch where
  | x86_64
  | x86
  | aarch64
  | riscv64
  | riscv32
  | arm
  | loongarch64
deriving DecidableEq, Repr

inductive SymbolType where
  | func
  | object
  | tls
deriving DecidableEq, Repr

inductive SymbolScope where
  | global
  | local
  | weak
deriving DecidableEq, Repr

inductive SectionKind where
  | null
  | dynStr
  | dynSym
  | relaDyn
  | relaPlt
  | relDyn
  | relPlt
  | dynamic
  | hash
  | shStrTab
  | plt
  | text
  | data
  | got
  | gotPlt
  | tls
deriving DecidableEq, Repr

structure Content where
  data : List UInt8
  kind : SectionKind
deriving DecidableEq, Repr

structure SymbolDesc where
  name : Name
  symType : SymbolType
  scope : SymbolScope
  content : Option Content
  size : Option Nat
deriving DecidableEq, Repr

namespace SymbolDesc

def globalFunc (name : Name) (code : List UInt8) : SymbolDesc where
  name
  symType := .func
  scope := .global
  content := some { data := code, kind := .text }
  size := some code.length

def globalObject (name : Name) (data : List UInt8) : SymbolDesc where
  name
  symType := .object
  scope := .global
  content := some { data, kind := .data }
  size := some data.length

def undefinedFunc (name : Name) : SymbolDesc where
  name
  symType := .func
  scope := .global
  content := none
  size := none

/-- A function located in the PLT section. -/
def pltFunc (name : Name) (code : List UInt8) : SymbolDesc where
  name
  symType := .func
  scope := .global
  content := some { data := code, kind := .plt }
  size := some code.length

end SymbolDesc

structure RelocEntry where
  symbolName : Name
  rType : BitVec 32
  addend : BitVec 64
deriving DecidableEq, Repr

/-- The sum of two `u64`. -/
def addU64 (a b : Nat) : Option Nat := if a + b < 2 ^ 64 then some (a + b) else none

/-- The difference of two `u64`. -/
def subU64 (a b : Nat) : Option Nat := if b ≤ a then some (a - b) else none

theorem addU64_eq_some_iff {a b c : Nat} :
    addU64 a b = some c ↔ a + b < 2 ^ 64 ∧ c = a + b := by
  unfold addU64
  split <;> simp_all [eq_comm]

theorem subU64_eq_some_iff {a b c : Nat} : subU64 a b = some c ↔ b ≤ a ∧ c = a - b := by
  unfold subU64
  split <;> simp_all [eq_comm]

/-- `Vec::resize`. -/
def resize (data : List UInt8) (n : Nat) (fill : UInt8) : List UInt8 :=
  data.take n ++ List.replicate (n - data.length) fill

namespace Arch

def is64 : Arch → Bool
  | .x86_64 | .aarch64 | .riscv64 | .loongarch64 => true
  | .x86 | .riscv32 | .arm => false

def isRela : Arch → Bool
  | .x86_64 | .aarch64 | .riscv64 | .riscv32 | .loongarch64 => true
  | .x86 | .arm => false

/-- The bits of an address of the target. -/
def bits (arch : Arch) : Nat := if arch.is64 then 64 else 32

/-- The bytes of an address of the target. -/
def wordSize (arch : Arch) : Nat := if arch.is64 then 8 else 4

def jumpSlotReloc : Arch → BitVec 32
  | .x86_64 => 7
  | .x86 => 7
  | .aarch64 => 1026
  | .arm => 22
  | .riscv64 | .riscv32 => 5
  | .loongarch64 => 5

def globDatReloc : Arch → BitVec 32
  | .x86_64 => 6
  | .x86 => 6
  | .aarch64 => 1025
  | .arm => 21
  | .riscv64 => 2
  | .riscv32 => 1
  | .loongarch64 => 2

def relativeReloc : Arch → BitVec 32
  | .x86_64 => 8
  | .x86 => 8
  | .aarch64 => 1027
  | .arm => 23
  | .riscv64 | .riscv32 => 3
  | .loongarch64 => 3

def irelativeReloc : Arch → BitVec 32
  | .x86_64 => 37
  | .x86 => 42
  | .aarch64 => 1032
  | .arm => 160
  | .riscv64 | .riscv32 => 58
  | .loongarch64 => 12

def absReloc : Arch → BitVec 32
  | .x86_64 => 1
  | .x86 => 1
  | .aarch64 => 257
  | .arm => 2
  | .riscv64 => 2
  | .riscv32 => 1
  | .loongarch64 => 2

def copyReloc : Arch → BitVec 32
  | .x86_64 => 5
  | .x86 => 5
  | .aarch64 => 1024
  | .arm => 20
  | .riscv64 | .riscv32 => 4
  | .loongarch64 => 4

/-- The module, offset and thread-pointer relocations of thread-local storage. -/
def tlsRelocs : Arch → List (BitVec 32)
  | .x86_64 => [16, 17, 18]
  | .x86 => [35, 36, 14]
  | .aarch64 => [1028, 1029, 1030]
  | .arm => [17, 18, 19]
  | .riscv64 | .riscv32 => [7, 9, 11]
  | .loongarch64 => [7, 9, 11]

end Arch

namespace RelocEntry

def withName (symbolName : Name) (rType : BitVec 32) : RelocEntry where
  symbolName
  rType
  addend := 0

def jumpSlot (symbolName : Name) (arch : Arch) : RelocEntry :=
  withName symbolName arch.jumpSlotReloc

end RelocEntry

/-- `calculate_addend`. -/
def calculateAddend (arch : Arch) (rType : BitVec 32) (relocOffset dataVaddr symValue : Nat) :
    BitVec 64 :=
  if rType = arch.globDatReloc then 0
  else if rType = arch.absReloc then BitVec.ofNat 64 (symValue + 0x10)
  else if rType = arch.jumpSlotReloc then 0
  else if rType = arch.relativeReloc then
    if symValue ≠ 0 then BitVec.ofNat 64 symValue else BitVec.ofNat 64 dataVaddr
  else if rType = arch.copyReloc then 0
  else if rType ∈ arch.tlsRelocs then 0
  else BitVec.ofNat 64 relocOffset

end ElfLoader.GenElf
