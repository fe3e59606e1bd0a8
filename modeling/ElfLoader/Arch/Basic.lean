import Mathlib.Data.BitVec
import Mathlib.Tactic.Basic
import Mathlib.Tactic.Tauto

/-! # Architectures (`src/arch`)

The constants of one target that relocation reads. Each target is a value of
`Arch`; that relocations with different meanings have different numbers is part
of the type. Only the two symbol relocations may share one.
-/

namespace ElfLoader

def relNone : Nat := 0

structure Arch (w : Nat) where
  relRelative : Nat
  relGot : Nat
  relSymbolic : Nat
  relJumpSlot : Nat
  relDtpoff : Nat
  relIrelative : Nat
  relCopy : Nat
  tlsDtvOffset : BitVec w
  dylibOffset : Nat
  resolveFunctionOffset : Nat
  /-- `ElfRelType` is `ElfRel`: the addend is the word at the patched place. -/
  inPlaceAddend : Bool
  relNames : List (Nat × String)
  distinct :
    [relNone, relRelative, relJumpSlot, relDtpoff, relIrelative, relCopy, relSymbolic].Nodup
  got_distinct : relGot ∉ [relNone, relRelative, relJumpSlot, relDtpoff, relIrelative, relCopy]

namespace Arch

variable {w : Nat}

/-- A symbol relocation has no other meaning. -/
theorem addr_type_ne (arch : Arch w) {t : Nat} (ht : t = arch.relGot ∨ t = arch.relSymbolic) :
    t ≠ relNone ∧ t ≠ arch.relRelative ∧ t ≠ arch.relJumpSlot ∧ t ≠ arch.relDtpoff ∧
      t ≠ arch.relIrelative ∧ t ≠ arch.relCopy := by
  have hgot := arch.got_distinct
  have hdistinct := arch.distinct
  simp only [List.mem_cons, List.not_mem_nil, List.nodup_cons, not_or, or_false] at hgot hdistinct
  rcases ht with rfl | rfl
  · tauto
  · tauto

/-- The types whose entries name a symbol. -/
def symbolTypes (arch : Arch w) : List Nat :=
  [arch.relGot, arch.relSymbolic, arch.relJumpSlot, arch.relDtpoff, arch.relCopy]

theorem not_mem_symbolTypes (arch : Arch w) :
    relNone ∉ arch.symbolTypes ∧ arch.relRelative ∉ arch.symbolTypes ∧
      arch.relIrelative ∉ arch.symbolTypes := by
  have hgot := arch.got_distinct
  have hdistinct := arch.distinct
  simp only [symbolTypes, List.mem_cons, List.not_mem_nil, List.nodup_cons, not_or, or_false]
    at hgot hdistinct ⊢
  tauto

theorem relative_ne (arch : Arch w) :
    arch.relRelative ≠ relNone ∧ arch.relRelative ≠ arch.relIrelative := by
  have hdistinct := arch.distinct
  simp only [List.mem_cons, List.not_mem_nil, List.nodup_cons, not_or, or_false] at hdistinct
  tauto

/-- A jump slot has no other meaning. -/
theorem jumpSlot_ne (arch : Arch w) :
    arch.relJumpSlot ≠ arch.relDtpoff ∧ arch.relJumpSlot ≠ arch.relCopy := by
  have hdistinct := arch.distinct
  simp only [List.mem_cons, List.not_mem_nil, List.nodup_cons, not_or, or_false] at hdistinct
  tauto

theorem irelative_ne_jumpSlot (arch : Arch w) : arch.relIrelative ≠ arch.relJumpSlot := by
  have hother := arch.not_mem_symbolTypes.2.2
  simp only [symbolTypes, List.mem_cons, not_or] at hother
  exact hother.2.2.1

theorem copy_ne_dtpoff (arch : Arch w) : arch.relCopy ≠ arch.relDtpoff := by
  have hdistinct := arch.distinct
  simp only [List.mem_cons, List.not_mem_nil, List.nodup_cons, not_or, or_false] at hdistinct
  tauto

/-- `rel_type_to_str`. -/
def relTypeToStr (arch : Arch w) (rType : Nat) : String :=
  (arch.relNames.lookup rType).getD "UNKNOWN"

def x86_64 : Arch 64 where
  relRelative := 8
  relGot := 6
  relSymbolic := 1
  relJumpSlot := 7
  relDtpoff := 17
  relIrelative := 37
  relCopy := 5
  tlsDtvOffset := 0
  dylibOffset := 1
  resolveFunctionOffset := 2
  inPlaceAddend := false
  relNames := [(0, "R_X86_64_NONE"), (1, "R_X86_64_64"), (2, "R_X86_64_PC32"),
    (3, "R_X86_64_GOT32"), (4, "R_X86_64_PLT32"), (5, "R_X86_64_COPY"), (6, "R_X86_64_GLOB_DAT"),
    (7, "R_X86_64_JUMP_SLOT"), (8, "R_X86_64_RELATIVE"), (9, "R_X86_64_GOTPCREL"),
    (10, "R_X86_64_32"), (11, "R_X86_64_32S"), (37, "R_X86_64_IRELATIVE")]
  distinct := by decide
  got_distinct := by decide

def aarch64 : Arch 64 where
  relRelative := 1027
  relGot := 1025
  relSymbolic := 257
  relJumpSlot := 1026
  relDtpoff := 1029
  relIrelative := 1032
  relCopy := 1024
  tlsDtvOffset := 0
  dylibOffset := 1
  resolveFunctionOffset := 2
  inPlaceAddend := false
  relNames := [(0, "R_AARCH64_NONE"), (257, "R_AARCH64_ABS64"), (1025, "R_AARCH64_GLOB_DAT"),
    (1027, "R_AARCH64_RELATIVE"), (1026, "R_AARCH64_JUMP_SLOT"), (1032, "R_AARCH64_IRELATIVE"),
    (1024, "R_AARCH64_COPY")]
  distinct := by decide
  got_distinct := by decide

def riscv64 : Arch 64 where
  relRelative := 3
  relGot := 2
  relSymbolic := 2
  relJumpSlot := 5
  relDtpoff := 9
  relIrelative := 58
  relCopy := 4
  tlsDtvOffset := 0x800
  dylibOffset := 1
  resolveFunctionOffset := 0
  inPlaceAddend := false
  relNames := [(0, "R_RISCV_NONE"), (2, "R_RISCV_64"), (3, "R_RISCV_RELATIVE"),
    (4, "R_RISCV_COPY"), (5, "R_RISCV_JUMP_SLOT"), (58, "R_RISCV_IRELATIVE")]
  distinct := by decide
  got_distinct := by decide

def riscv32 : Arch 32 where
  relRelative := 3
  relGot := 1
  relSymbolic := 1
  relJumpSlot := 5
  relDtpoff := 8
  relIrelative := 58
  relCopy := 4
  tlsDtvOffset := 0x800
  dylibOffset := 1
  resolveFunctionOffset := 0
  inPlaceAddend := false
  relNames := [(0, "R_RISCV_NONE"), (1, "R_RISCV_32"), (3, "R_RISCV_RELATIVE"),
    (4, "R_RISCV_COPY"), (5, "R_RISCV_JUMP_SLOT"), (58, "R_RISCV_IRELATIVE")]
  distinct := by decide
  got_distinct := by decide

def loongarch64 : Arch 64 where
  relRelative := 3
  relGot := 2
  relSymbolic := 2
  relJumpSlot := 5
  relDtpoff := 9
  relIrelative := 12
  relCopy := 4
  tlsDtvOffset := 0
  dylibOffset := 1
  resolveFunctionOffset := 0
  inPlaceAddend := false
  relNames := [(2, "R_LARCH_64"), (3, "R_LARCH_RELATIVE"), (4, "R_LARCH_COPY"),
    (5, "R_LARCH_JUMP_SLOT"), (7, "R_LARCH_TLS_DTPMOD64"), (9, "R_LARCH_TLS_DTPREL64"),
    (12, "R_LARCH_IRELATIVE")]
  distinct := by decide
  got_distinct := by decide

def x86 : Arch 32 where
  relRelative := 8
  relGot := 6
  relSymbolic := 1
  relJumpSlot := 7
  relDtpoff := 36
  relIrelative := 42
  relCopy := 5
  tlsDtvOffset := 0
  dylibOffset := 1
  resolveFunctionOffset := 2
  inPlaceAddend := true
  relNames := [(1, "R_386_32"), (6, "R_386_GLOB_DAT"), (5, "R_386_COPY"), (7, "R_386_JMP_SLOT"),
    (8, "R_386_RELATIVE"), (35, "R_386_TLS_DTPMOD32"), (36, "R_386_TLS_DTPOFF32"),
    (42, "R_386_IRELATIVE"), (14, "R_386_TLS_TPOFF")]
  distinct := by decide
  got_distinct := by decide

def arm : Arch 32 where
  relRelative := 23
  relGot := 21
  relSymbolic := 2
  relJumpSlot := 22
  relDtpoff := 18
  relIrelative := 160
  relCopy := 20
  tlsDtvOffset := 0
  dylibOffset := 1
  resolveFunctionOffset := 2
  inPlaceAddend := true
  relNames := [(0, "R_ARM_NONE"), (2, "R_ARM_ABS32"), (21, "R_ARM_GLOB_DAT"),
    (22, "R_ARM_JUMP_SLOT"), (23, "R_ARM_RELATIVE"), (160, "R_ARM_IRELATIVE"),
    (20, "R_ARM_COPY")]
  distinct := by decide
  got_distinct := by decide

end Arch

end ElfLoader
