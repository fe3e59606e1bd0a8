import ElfLoader.Error
import Mathlib.Data.BitVec

/-! # Symbols and string tables (`src/elf/defs.rs`, `src/elf/symbol.rs`)

Tables that the loader reads through raw pointers are lists here. A read past
the end of one is `Halt.fault`: nothing is known about what the code would see.
-/

namespace ElfLoader

variable {w : Nat}

structure ElfSymbol (w : Nat) where
  stName : UInt32
  stValue : BitVec w
  stSize : BitVec w
  stInfo : UInt8
  stOther : UInt8
  stShndx : UInt16
deriving DecidableEq

def shnUndef : UInt16 := 0

def stbLocal : UInt8 := 0
def stbGlobal : UInt8 := 1
def stbWeak : UInt8 := 2
def stbGnuUnique : UInt8 := 10

def sttNotype : UInt8 := 0
def sttObject : UInt8 := 1
def sttFunc : UInt8 := 2
def sttFile : UInt8 := 4
def sttCommon : UInt8 := 5
def sttTls : UInt8 := 6
def sttGnuIfunc : UInt8 := 10

def okBinds : Nat :=
  1 <<< stbGlobal.toNat ||| 1 <<< stbWeak.toNat ||| 1 <<< stbGnuUnique.toNat

def okTypes : Nat :=
  1 <<< sttNotype.toNat ||| 1 <<< sttObject.toNat ||| 1 <<< sttFunc.toNat |||
    1 <<< sttCommon.toNat ||| 1 <<< sttTls.toNat ||| 1 <<< sttGnuIfunc.toNat

namespace ElfSymbol

def stBind (sym : ElfSymbol w) : UInt8 := sym.stInfo >>> 4

def stType (sym : ElfSymbol w) : UInt8 := sym.stInfo &&& 0xf

def isUndef (sym : ElfSymbol w) : Bool := sym.stShndx = shnUndef

def isOkBind (sym : ElfSymbol w) : Bool := 1 <<< sym.stBind.toNat &&& okBinds ≠ 0

def isOkType (sym : ElfSymbol w) : Bool := 1 <<< sym.stType.toNat &&& okTypes ≠ 0

def isLocal (sym : ElfSymbol w) : Bool := sym.stBind = stbLocal

def isWeak (sym : ElfSymbol w) : Bool := sym.stBind = stbWeak

/-- What `lookup_filter` asks of a definition. -/
def isUsable (sym : ElfSymbol w) : Bool := !sym.isUndef && sym.isOkBind && sym.isOkType

theorem isOkBind_iff (sym : ElfSymbol w) :
    sym.isOkBind = true ↔
      sym.stBind = stbGlobal ∨ sym.stBind = stbWeak ∨ sym.stBind = stbGnuUnique := by
  have hlt : sym.stBind.toNat < 16 := by
    have hinfo := sym.stInfo.toNat_lt
    rw [stBind, UInt8.toNat_shiftRight, Nat.shiftRight_eq_div_pow]
    exact Nat.div_lt_of_lt_mul hinfo
  have htable : ∀ n < 16, decide (1 <<< n &&& okBinds ≠ 0) = true ↔ n = 1 ∨ n = 2 ∨ n = 10 := by
    decide
  rw [isOkBind, htable _ hlt]
  simp only [← UInt8.toNat_inj]
  rfl

/-- The symbol is one that `DT_GNU_HASH` is for: defined, and global, weak or
unique. -/
def Exported (sym : ElfSymbol w) : Prop :=
  sym.isUndef = false ∧
    (sym.stBind = stbGlobal ∨ sym.stBind = stbWeak ∨ sym.stBind = stbGnuUnique)

theorem isUsable_of_not_exported {sym : ElfSymbol w} (h : ¬ sym.Exported) :
    sym.isUsable = false := by
  unfold Exported at h
  rw [← isOkBind_iff] at h
  unfold isUsable
  cases hundef : sym.isUndef with
  | true => rfl
  | false =>
      have hbind : sym.isOkBind = false := by
        rw [hundef] at h
        simpa using h
      simp [hbind]

end ElfSymbol

/-- A reference to a symbol: the entry, and where it stands in its table. -/
structure SymRef (w : Nat) where
  idx : Nat
  sym : ElfSymbol w
deriving DecidableEq

/-- `ElfStringTable::get_str`: the bytes from `offset` up to the first NUL. -/
def getStr (strtab : List UInt8) (offset : Nat) : Except Halt Name :=
  if 0 ∈ strtab.drop offset then .ok ((strtab.drop offset).takeWhile (· ≠ 0))
  else .error .fault

end ElfLoader
